import Mathlib.Data.List.DropRight
import Chainweave.Live.Safety

/-!
# A source of one chain

* `SourceChain V`: the blocks of a source that never changes, by height.
* `replies`: what such a source answers. Nothing is said of the headers and
  blocks it gives for other hashes, and any call may fail.
* `plan c L`: the events that take the canonical chain `L` to the source's head:
  the blocks of `L` off the source's chain are rolled back, and the source's blocks
  from there on are applied. There are none when `L` holds the head.
* `plan_extend`, `plan_turn`: a commit of a run takes a front part off the plan.
-/
namespace Chainweave.Live

open Stateful HashLink Chainweave.Chain Chainweave.Backfill Chainweave.Postgres Chainweave.Runtime
open BlockingPostgresLiveSink (checkpointRow)

/-- A source's chain, from height 0 up to its head. -/
structure SourceChain (V : Set BlockHeader) where
  height : Nat
  block : Nat → IndexedBlock
  mem : ∀ n ≤ height, (block n).header ∈ V
  height_eq : ∀ n ≤ height, (block n).header.height = n
  linked : ∀ n < height, IsChild (block (n + 1)).header (block n).header

namespace SourceChain

variable {V : Set BlockHeader} (c : SourceChain V)

def head : BlockHeader := (c.block c.height).header

/-- The headers of the chain. -/
def line : Line V where
  top := c.height
  blockAt n := (c.block n).header
  mem := c.mem
  height_eq := c.height_eq
  linked := c.linked

/-- The blocks from height `n` up to the head. -/
def blocksFrom (n : Nat) : List IndexedBlock := (List.range' n (c.height + 1 - n)).map c.block

/-- What a source of this chain answers. -/
def replies : Replies where
  head h := h = c.head
  block n b := n ≤ c.height ∧ b = c.block n
  blockOf hash b :=
    b.header ∈ V ∧ ∀ n ≤ c.height, (c.block n).header.hash = hash → b = c.block n
  remote n o := (∀ x ∈ o, x ∈ V) ∧ (n ≤ c.height → o = some (c.block n).header)
  parent _ o := ∀ x ∈ o, x ∈ V

/-- The blocks at the end of `L` that the source's chain does not have. -/
def orphans (L : List BlockHeader) : List BlockHeader := L.rtakeWhile (¬ c.line.Has ·)

/-- `L` without its orphans. -/
def shared (L : List BlockHeader) : List BlockHeader := L.rdropWhile (¬ c.line.Has ·)

/-- The height above a chain. -/
def nextHeight (L : List BlockHeader) : Nat := (L.getLast?.map (·.height + 1)).getD 0

/-- The events from the canonical chain `L` to the source's head. -/
def plan (L : List BlockHeader) : List DurableChainEvent :=
  if c.head ∈ L then []
  else transitionEvents (c.orphans L) (c.blocksFrom (nextHeight (c.shared L)))

variable {c} {L base ups : List BlockHeader}

theorem has_head : c.line.Has c.head := Line.has_blockAt (c := c.line) (Nat.le_refl c.height)

@[simp] theorem head_height : c.head.height = c.height := c.height_eq _ (Nat.le_refl _)

theorem replies_within : c.replies.Within V :=
  ⟨fun _ h => h ▸ c.mem _ (Nat.le_refl _), fun _ _ h => h.2 ▸ c.mem _ h.1, fun _ _ h => h.1,
    fun _ _ h => h.1, fun _ _ h => h⟩

theorem blocksFrom_cons {n : Nat} (h : n ≤ c.height) :
    c.blocksFrom n = c.block n :: c.blocksFrom (n + 1) := by
  unfold blocksFrom
  rw [show c.height + 1 - n = (c.height + 1 - (n + 1)) + 1 by omega, List.range'_succ,
    List.map_cons]

theorem blocksFrom_nil {n : Nat} (h : c.height < n) : c.blocksFrom n = [] := by
  unfold blocksFrom
  rw [show c.height + 1 - n = 0 by omega]
  rfl

theorem mem_blocksFrom {n : Nat} {b : IndexedBlock} :
    b ∈ c.blocksFrom n ↔ ∃ k, n ≤ k ∧ k ≤ c.height ∧ c.block k = b := by
  unfold blocksFrom
  simp only [List.mem_map, List.mem_range'_1]
  constructor
  · intro hex
    rcases hex with ⟨k, hk, rfl⟩
    exact ⟨k, by omega, by omega, rfl⟩
  · intro hex
    rcases hex with ⟨k, h1, h2, rfl⟩
    exact ⟨k, by omega, rfl⟩

theorem blocksFrom_headers (n : Nat) : (c.blocksFrom n).map (·.header) =
    (List.range' n (c.height + 1 - n)).map c.line.blockAt := by
  unfold blocksFrom
  rw [List.map_map]
  rfl

theorem shared_append_orphans (c : SourceChain V) (L : List BlockHeader) :
    c.shared L ++ c.orphans L = L := List.rdropWhile_append_rtakeWhile ..

theorem not_has_of_orphan {x : BlockHeader} (h : x ∈ c.orphans L) : ¬ c.line.Has x := by
  simpa using List.mem_rtakeWhile_imp h

theorem has_of_shared {x : BlockHeader} (h : (c.shared L).getLast? = some x) : c.line.Has x := by
  have hne : c.shared L ≠ [] := by
    intro h0
    rw [h0] at h
    cases h
  rw [List.getLast?_eq_some_getLast hne, Option.some.injEq] at h
  have hnot : ¬ (decide (¬ c.line.Has ((c.shared L).getLast hne)) = true) :=
    List.rdropWhile_last_not _ _ hne
  rw [← h]
  simpa using hnot

/-- The split of `L` into shared blocks and orphans is the only one of its kind. -/
theorem split_eq (hbase : ∀ x ∈ base.getLast?, c.line.Has x) (hups : ∀ x ∈ ups, ¬ c.line.Has x) :
    c.shared (base ++ ups) = base ∧ c.orphans (base ++ ups) = ups := by
  unfold shared orphans
  induction ups using List.reverseRecOn with
  | nil =>
    rw [List.append_nil]
    rcases List.eq_nil_or_concat' base with rfl | ⟨init, x, rfl⟩
    · exact ⟨rfl, rfl⟩
    · have hx : ¬ (decide (¬ c.line.Has x) = true) := by simpa using hbase x (by simp)
      exact ⟨List.rdropWhile_concat_neg (¬ c.line.Has ·) _ _ hx,
        List.rtakeWhile_concat_neg (¬ c.line.Has ·) _ _ hx⟩
  | append_singleton ups x ih =>
    obtain ⟨h1, h2⟩ := ih fun y hy => hups y (List.mem_append_left _ hy)
    have hx : decide (¬ c.line.Has x) = true := by simpa using hups x (by simp)
    rw [← List.append_assoc]
    constructor
    · rw [List.rdropWhile_concat_pos (¬ c.line.Has ·) _ _ hx, h1]
    · rw [List.rtakeWhile_concat_pos (¬ c.line.Has ·) _ _ hx, h2]

/-- The plan of a chain that the source has left above `base`. -/
theorem plan_split (hbase : ∀ x ∈ base.getLast?, c.line.Has x)
    (hups : ∀ x ∈ ups, ¬ c.line.Has x) (hhead : c.head ∉ base ++ ups) :
    c.plan (base ++ ups) = transitionEvents ups (c.blocksFrom (nextHeight base)) := by
  obtain ⟨h1, h2⟩ := split_eq hbase hups
  unfold plan
  rw [if_neg hhead, h1, h2]

theorem plan_of_mem (h : c.head ∈ L) : c.plan L = [] := if_pos h

theorem nextHeight_concat (L : List BlockHeader) (x : BlockHeader) :
    nextHeight (L ++ [x]) = x.height + 1 := by
  simp [nextHeight]

theorem nextHeight_of_last {x : BlockHeader} (h : L.getLast? = some x) :
    nextHeight L = x.height + 1 := by
  simp [nextHeight, h]

theorem blocksFrom_last {n : Nat} (h : n ≤ c.height) :
    ((c.blocksFrom n).map (·.header)).getLast? = some c.head := by
  rw [blocksFrom_headers, show c.height + 1 - n = (c.height - n) + 1 by omega, List.range'_1_concat,
    List.map_append, show n + (c.height - n) = c.height by omega]
  simp [head, line]

/-- The source's blocks go on top of what it shares. -/
theorem linked_shared (hl : Linked base) (hbase : ∀ x ∈ base.getLast?, c.line.Has x) :
    Linked (base ++ (c.blocksFrom (nextHeight base)).map (·.header)) := by
  rw [blocksFrom_headers]
  rcases List.eq_nil_or_concat' base with rfl | ⟨init, fork, rfl⟩
  · exact c.line.linked_range (by simp [nextHeight, line])
  · have hhas : c.line.Has fork := hbase fork (by simp)
    have hle : fork.height ≤ c.height := hhas.1
    have hrest := c.line.linked_range (n := fork.height) (k := c.height + 1 - fork.height)
      (by show _ ≤ c.height + 1; omega)
    rw [nextHeight_concat, List.append_assoc, List.singleton_append]
    refine hl.append ?_
    rw [show c.height + 1 - fork.height = (c.height + 1 - (fork.height + 1)) + 1 by omega,
      List.range'_succ, List.map_cons] at hrest
    have hat : c.line.blockAt fork.height = fork := hhas.2
    rwa [hat] at hrest

/-- A block that extends the chain is the first of the plan. -/
theorem plan_extend (hV : HashId V) {t : Tables} (h : WellFormed V t L) {block : IndexedBlock}
    (hreply : c.replies.block block.header.height block)
    (hfollows : Follows L.getLast? block.header) :
    c.plan L = .apply block :: c.plan (L ++ [block.header]) := by
  obtain ⟨hle, hblock⟩ := hreply
  generalize hn : block.header.height = n at hle hblock
  have hhas : c.line.Has block.header := hblock ▸ Line.has_blockAt (c := c.line) hle
  have hbelow : nextHeight L = n ∧ (∀ x ∈ L.getLast?, c.line.Has x) ∧ c.head ∉ L := by
    cases hlast : L.getLast? with
    | none =>
      obtain rfl := List.getLast?_eq_none_iff.1 hlast
      exact ⟨((hfollows.1 rfl).symm.trans hn), by simp, by simp⟩
    | some cp =>
      have hchild : IsChild block.header cp := hfollows.2 cp hlast
      have hheight : block.header.height = cp.height + 1 := hchild.2
      have hcp : cp ∈ V := h.rows _ (Tables.canonical_subset ((h.canonical _).2
        (List.mem_of_getLast? hlast)))
      refine ⟨by rw [nextHeight_of_last hlast]; omega, ?_, fun hmem => ?_⟩
      · intro x hx
        obtain rfl := Option.some.inj hx
        exact hhas.parent hV hcp hchild
      · have := h.linked.height_le hlast hmem
        simp only [block_height, head_height] at this
        omega
  obtain ⟨hnext, hbase, hhead⟩ := hbelow
  have hplan : c.plan L = transitionEvents [] (c.blocksFrom n) := by
    have hsplit : c.plan (L ++ []) = transitionEvents [] (c.blocksFrom (nextHeight L)) :=
      plan_split hbase (by simp) (by simpa using hhead)
    rwa [List.append_nil, hnext] at hsplit
  rw [hplan, blocksFrom_cons hle, ← hblock]
  show DurableChainEvent.apply block :: (c.blocksFrom (n + 1)).map .apply = _
  congr 1
  by_cases hend : c.head ∈ L ++ [block.header]
  · rw [plan_of_mem hend]
    rcases List.mem_append.1 hend with hmem | hmem
    · exact absurd hmem hhead
    · have heq : c.height = n := by rw [← head_height, List.mem_singleton.1 hmem, hn]
      rw [blocksFrom_nil (by omega)]
      rfl
  · have hsplit : c.plan (L ++ [block.header] ++ []) =
        transitionEvents [] (c.blocksFrom (nextHeight (L ++ [block.header]))) :=
      plan_split (by simpa using hhas) (by simp) (by simpa using hend)
    rw [List.append_nil, nextHeight_concat, hn] at hsplit
    rw [hsplit]
    rfl

/-- Blocks the source gave for the hashes of a stretch of its chain. -/
theorem blocks_eq {n k : Nat} (hk : n + k ≤ c.height + 1) {bs : List IndexedBlock}
    (hmap : bs.map (·.header) = (List.range' n k).map c.line.blockAt)
    (hbs : ∀ b ∈ bs, c.replies.blockOf b.header.hash b) : bs = (List.range' n k).map c.block := by
  induction k generalizing n bs with
  | zero => simpa using hmap
  | succ k ih =>
    rw [List.range'_succ, List.map_cons] at hmap ⊢
    cases bs with
    | nil => cases hmap
    | cons b bs =>
      rw [List.map_cons, List.cons.injEq] at hmap
      have hb : b = c.block n := (hbs b (by simp)).2 n (by omega) (by rw [hmap.1]; rfl)
      rw [ih (by omega) hmap.2 (fun b' hb' => hbs b' (List.mem_cons_of_mem _ hb')), hb]

theorem blocksFrom_unique {n : Nat} (hn : n ≤ c.height) {blocks : List IndexedBlock}
    (hmap : blocks.map (·.header) = (c.blocksFrom n).map (·.header))
    (hblocks : ∀ b ∈ blocks, c.replies.blockOf b.header.hash b) : blocks = c.blocksFrom n := by
  rw [blocksFrom_headers] at hmap
  exact blocks_eq (by omega) hmap hblocks

/-- A turn to the source's head is the whole plan. -/
theorem plan_turn (hV : HashId V) {t : Tables} (h : WellFormed V t L) {batch : ChainBatch}
    {applies : List BlockHeader} (ht : Turn V L c.head batch base ups applies)
    (hhead : c.head ∉ L) {bs : List IndexedBlock} (hmap : bs.map (·.header) = applies)
    (hbs : ∀ b ∈ bs, c.replies.blockOf b.header.hash b) :
    c.plan L = transitionEvents ups bs ∧ c.plan (base ++ applies) = [] := by
  have hLV : ∀ x ∈ L, x ∈ V := fun x hx =>
    h.rows x (Tables.canonical_subset ((h.canonical x).2 hx))
  have hall : ∀ z ∈ base ++ applies, c.line.Has z := by
    refine Line.has_of_top hV ht.linked ?_ ht.top has_head
    intro z hz
    rcases List.mem_append.1 hz with hz | hz
    · exact hLV z (ht.split ▸ List.mem_append_left _ hz)
    · exact (ht.new z hz).1
  have happ : applies ≠ [] := by
    intro heq
    subst heq
    have htop := ht.top
    rw [List.append_nil] at htop
    exact hhead (ht.split ▸ List.mem_append_left _ (List.mem_of_getLast? htop))
  obtain ⟨fork, hfork⟩ := Option.isSome_iff_exists.1 (List.getLast?_isSome.2 ht.base_ne)
  have hforkmem := List.mem_of_getLast? hfork
  obtain ⟨pre, hpre⟩ := List.getLast?_eq_some_iff.1 hfork
  -- what is applied is the source's chain above the fork
  have hrange : applies = (List.range' (fork.height + 1) (c.height + 1 - (fork.height + 1))).map
      c.line.blockAt := by
    have hl : Linked (fork :: applies) := by
      have := ht.linked
      rw [hpre, List.append_assoc, List.singleton_append] at this
      exact this.right
    have htop : (fork :: applies).getLast? = some c.head := by
      rw [List.getLast?_cons, ← ht.top, List.getLast?_append_of_ne_nil _ happ]
      obtain ⟨x, hx⟩ := Option.isSome_iff_exists.1 (List.getLast?_isSome.2 happ)
      rw [hx]
      rfl
    have := Line.eq_range hl (fun z hz => by
      rcases List.mem_cons.1 hz with rfl | hz
      · exact hall _ (List.mem_append_left _ hforkmem)
      · exact hall z (List.mem_append_right _ hz)) htop
    simp only [block_height, head_height] at this
    rw [this]
    congr 2
    omega
  have hups : ∀ x ∈ ups, ¬ c.line.Has x := by
    intro x hx hhas
    have hl := h.linked
    rw [ht.split] at hl
    have hlt := (List.pairwise_append.1 hl.pairwise).2.2 fork hforkmem x hx
    simp only [block_height] at hlt
    have hmem : x ∈ applies := by
      rw [hrange, List.mem_map]
      have hle : x.height ≤ c.height := hhas.1
      exact ⟨x.height, List.mem_range'_1.2 ⟨by omega, by omega⟩, hhas.2⟩
    exact (ht.new x hmem).2 (ht.split ▸ List.mem_append_right _ hx)
  have hbs' : bs = c.blocksFrom (nextHeight base) := by
    rw [nextHeight_of_last hfork]
    have hle : fork.height ≤ c.height := (hall _ (List.mem_append_left _ hforkmem)).1
    exact blocks_eq (by omega) (hmap.trans hrange) hbs
  refine ⟨?_, plan_of_mem (List.mem_of_getLast? ht.top)⟩
  rw [hbs']
  conv_lhs => rw [ht.split]
  refine plan_split ?_ hups (ht.split ▸ hhead)
  intro x hx
  exact hall x (List.mem_append_left _ (List.mem_of_getLast? hx))

/-- `L` leaves the source's chain above `base`. -/
structure Leaves (c : SourceChain V) (L base ups : List BlockHeader) : Prop where
  split : L = base ++ ups
  shared : ∀ x ∈ base, c.line.Has x
  orphaned : ∀ x ∈ ups, ¬ c.line.Has x

theorem exists_leaves (hV : HashId V) {t : Tables} (h : WellFormed V t L) :
    ∃ base ups, c.Leaves L base ups := by
  refine ⟨c.shared L, c.orphans L, (c.shared_append_orphans L).symm, fun x hx => ?_,
    fun x hx => not_has_of_orphan hx⟩
  obtain ⟨fork, hfork⟩ := Option.isSome_iff_exists.1
    (List.getLast?_isSome.2 (List.ne_nil_of_mem hx))
  have hl : Linked (c.shared L) := by
    have hl := h.linked
    rw [← c.shared_append_orphans L] at hl
    exact hl.left
  refine Line.has_of_top hV hl (fun z hz => ?_) hfork (has_of_shared hfork) x hx
  have hz' : z ∈ L := by
    rw [← c.shared_append_orphans L]
    exact List.mem_append_left _ hz
  exact h.rows z (Tables.canonical_subset ((h.canonical z).2 hz'))

theorem Leaves.last (h : c.Leaves L base ups) : ∀ x ∈ base.getLast?, c.line.Has x :=
  fun x hx => h.shared x (List.mem_of_getLast? hx)

theorem Leaves.plan (h : c.Leaves L base ups) (hhead : c.head ∉ L) :
    c.plan L = transitionEvents ups (c.blocksFrom (nextHeight base)) := by
  rw [h.split]
  exact plan_split h.last h.orphaned (h.split ▸ hhead)

/-- The source's chain goes on above the shared blocks. -/
theorem Leaves.next_le (h : c.Leaves L base ups) (hhead : c.head ∉ L) :
    nextHeight base ≤ c.height := by
  rcases List.eq_nil_or_concat' base with rfl | ⟨init, fork, rfl⟩
  · exact Nat.zero_le _
  · obtain ⟨hle, hat⟩ := h.shared fork (by simp)
    rw [nextHeight_concat]
    refine Nat.lt_of_le_of_ne hle fun heq => hhead ?_
    have hf : c.head = fork := by
      rw [block_height, heq] at hat
      exact hat
    rw [hf, h.split]
    simp

end SourceChain

/-! ## A scripted source of one chain -/

/-- A chain of the small tree. -/
def branch (headers : List BlockHeader)
    (hmem : ∀ n ≤ headers.length - 1, headers.getD n genesis ∈ smallTree)
    (hheight : ∀ n ≤ headers.length - 1, (headers.getD n genesis).height = n)
    (hlinked : ∀ n < headers.length - 1,
      IsChild (headers.getD (n + 1) genesis) (headers.getD n genesis)) :
    SourceChain {x | x ∈ smallTree} where
  height := headers.length - 1
  block n := plainBlock (headers.getD n genesis)
  mem := hmem
  height_eq := hheight
  linked := hlinked

def chainA : SourceChain {x | x ∈ smallTree} :=
  branch [genesis, a1, a2] (by decide) (by decide) (by decide)

def chainB : SourceChain {x | x ∈ smallTree} :=
  branch [genesis, b1, b2] (by decide) (by decide) (by decide)

/-- The calls that a script has no block for. -/
def Missing (byNumber byHash : List IndexedBlock) : Request → Prop
  | .head => False
  | .verify => False
  | .number height => ∀ b ∈ byNumber, b.header.height ≠ height
  | .header height => ∀ b ∈ byNumber, b.header.height ≠ height
  | .hash hash => ∀ b ∈ byHash, b.header.hash ≠ hash

/-- What a script of blocks of one chain has at a height is the block of the chain there. -/
theorem find_height {V : Set BlockHeader} {c : SourceChain V} {byNumber : List IndexedBlock}
    (hnumber : ∀ b ∈ byNumber, b.header.height ≤ c.height ∧ b = c.block b.header.height) {height : Nat}
    {b : IndexedBlock} (hb : byNumber.find? (·.header.height = height) = some b) :
    height ≤ c.height ∧ b = c.block height := by
  have hh : b.header.height = height := by simpa using List.find?_some hb
  have hat := hnumber b (List.mem_of_find?_eq_some hb)
  rwa [hh] at hat

/-- A script whose head stays the same, over the blocks of one chain and any others by hash. -/
theorem scripted_constant {V : Set BlockHeader} {c : SourceChain V} {byNumber byHash : List IndexedBlock}
    (hnumber : ∀ b ∈ byNumber, b.header.height ≤ c.height ∧ b = c.block b.header.height)
    (hhash : ∀ b ∈ byHash, b.header ∈ V ∧
      ∀ n ≤ c.height, (c.block n).header.hash = b.header.hash → b = c.block n) :
    Answers c.replies (Missing byNumber byHash)
      (blockingTrackerSource (scriptedRpc [c.head] byNumber byHash)) where
  currentHead n := by
    show wp (scriptedRpc [c.head] byNumber byHash).currentHead _ _ n
    unfold scriptedRpc
    dsimp only
    rw [wp_bind, wp_get, wp_bind, wp_modify]
    cases n <;> exact rfl
  blockByNumber height n := by
    show wp ((scriptedRpc [c.head] byNumber byHash).blockByNumber height) _ _ n
    unfold scriptedRpc
    dsimp only
    split
    · rename_i b hb
      exact find_height hnumber hb
    · rename_i hnone
      exact fun b hb => by simpa using List.find?_eq_none.1 hnone b hb
  blockByHash hash n := by
    show wp ((scriptedRpc [c.head] byNumber byHash).blockByHash hash) _ _ n
    unfold scriptedRpc
    dsimp only
    split
    · rename_i b hb
      have hh : b.header.hash = hash := by simpa using List.find?_some hb
      obtain ⟨hV, hon⟩ := hhash b (List.mem_of_find?_eq_some hb)
      exact ⟨hV, fun k hk he => hon k hk (he.trans hh.symm)⟩
    · rename_i hnone
      exact fun b hb => by simpa using List.find?_eq_none.1 hnone b hb
  headerByNumber height n := by
    show wp (some <$> (scriptedRpc [c.head] byNumber byHash).headerByNumber height) _ _ n
    rw [map_eq_pure_bind, wp_bind]
    unfold scriptedRpc
    dsimp only
    split
    · rename_i b hb
      obtain ⟨hle, heq⟩ := find_height hnumber hb
      refine ⟨fun x hx => ?_, fun _ => by rw [heq]⟩
      obtain rfl := Option.some.inj hx
      rw [heq]
      exact c.mem _ hle
    · rename_i hnone
      exact fun b hb => by simpa using List.find?_eq_none.1 hnone b hb
  headerByHash hash n := by
    show ∀ x ∈ _, x ∈ V
    intro x hx
    obtain ⟨b, hb, rfl⟩ := Option.map_eq_some_iff.1 hx
    exact (hhash b (List.mem_of_find?_eq_some hb)).1
  verifyRecent _ _ _ := trivial
  logs _ _ _ h := by cases h
  logsOf _ _ _ h := by cases h

theorem ok_of_halted {τ : Type} {r : Except LiveError LiveReport × τ} {halt : Option LiveHaltReason}
    (h : r.1.toOption.map (·.halted) = some halt) :
    ∃ report, r = (.ok report, r.2) ∧ report.halted = halt := by
  obtain ⟨report, hr, hhalt⟩ := Option.map_eq_some_iff.1 h
  refine ⟨report, ?_, hhalt⟩
  cases hx : r.1 with
  | error e => rw [hx] at hr; cases hr
  | ok report' =>
    rw [hx] at hr
    obtain rfl := Option.some.inj hr
    exact Prod.ext hx rfl

/-- The small tree, and the blocks of its two branches. -/
def treeBlocks : List IndexedBlock := smallTree.map plainBlock

def blocksA : List IndexedBlock := [genesis, a1, a2].map plainBlock

def blocksB : List IndexedBlock := [genesis, b1, b2].map plainBlock

theorem answersA : Answers chainA.replies (Missing blocksA treeBlocks)
    (blockingTrackerSource (scriptedRpc [a2] blocksA treeBlocks)) :=
  @scripted_constant _ chainA _ _ (by decide)
    (by show ∀ b ∈ treeBlocks, b.header ∈ smallTree ∧ _; decide)

theorem answersB : Answers chainB.replies (Missing blocksB treeBlocks)
    (blockingTrackerSource (scriptedRpc [b2] blocksB treeBlocks)) :=
  @scripted_constant _ chainB _ _ (by decide)
    (by show ∀ b ∈ treeBlocks, b.header ∈ smallTree ∧ _; decide)

end Chainweave.Live
