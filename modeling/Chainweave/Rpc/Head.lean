import Chainweave.Rpc.Client
import Chainweave.Lib.HashLink

/-!
# The captured head

`crates/chainweave-rpc/src/client.rs`: `RpcClient::head` asks for the number of the
head and for the block at the head in two requests. `MovingNode` is a node whose chain
changes while it is asked.

* `head_one_block_iff`: exactly when number and hash are of one block.
-/
namespace Chainweave.Rpc

open Stateful HashLink Chainweave.Chain

/-! ## The source -/

/-- mirrors crates/chainweave-rpc/src/client.rs:21-27 -/
structure ChainHead where
  chainId : Nat
  number : Nat
  hash : BlockHash
  genesisHash : BlockHash
  deriving DecidableEq, Repr

/-- mirrors crates/chainweave-rpc/src/client.rs:41-44 -/
structure BlockIdentity where
  hash : BlockHash
  deriving DecidableEq, Repr

/-- `BlockNumberOrTag`, as far as it is asked for. -/
inductive BlockNumberOrTag where
  | latest
  | number (height : Nat)
  deriving DecidableEq, Repr

/-- The requests of `head`, over the node's own state. -/
structure HeadProvider (σ : Type) where
  getChainId : Prog σ String Nat
  getBlockNumber : Prog σ String Nat
  getBlockByNumber : BlockNumberOrTag → Prog σ String (Option BlockIdentity)

/-- `ok_or(RpcError::MissingBlock(..))`. -/
def requireBlock (identifier : String) (block : Option BlockIdentity) : Except RpcError BlockIdentity :=
  match block with
  | some block => .ok block
  | none => .error (.missingBlock identifier)

/-- mirrors crates/chainweave-rpc/src/client.rs:162-194 -/
def HeadProvider.head {σ : Type} (provider : HeadProvider σ) : Prog σ RpcError ChainHead := do
  let chainId ← mapError .request provider.getChainId
  let number ← mapError .request provider.getBlockNumber
  let latest ← mapError .request (provider.getBlockByNumber .latest)
  let latest ← lift (requireBlock "latest" latest)
  let genesis ← mapError .request (provider.getBlockByNumber (.number 0))
  let genesis ← lift (requireBlock "genesis" genesis)
  pure { chainId, number, hash := latest.hash, genesisHash := genesis.hash }

/-- The check of `run_backfill` after its last commit.
mirrors crates/chainweave-cli/src/main.rs:412-419 -/
def capturedHeadTaken (toBlock : Nat) (targetHead : ChainHead) (lastCommittedHash : Option BlockHash) :
    Bool :=
  ¬ (toBlock = targetHead.number ∧ lastCommittedHash ≠ some targetHead.hash)

/-! ## A node that moves -/

/-- The canonical chain at each moment, genesis first. The `i`-th request is answered `wait i` after
the one before, unless it fails. -/
structure MovingNode where
  chainId : Nat
  chain : Nat → List BlockHeader
  wait : Nat → Nat
  fault : Nat → Option String
  chain_ne : ∀ t, chain t ≠ []
  height_eq : ∀ (t height : Nat) (block : BlockHeader), (chain t)[height]? = some block →
    block.height = height

/-- The moment, and the requests so far. -/
structure Moment where
  now : Nat
  asked : Nat

namespace MovingNode

/-- A request that reads the chain of its moment. -/
def ask {α : Type} (node : MovingNode) (read : List BlockHeader → α) : Prog Moment String α :=
  ExceptT.mk fun s =>
    let now := s.now + node.wait s.asked
    (match node.fault s.asked with
      | some message => .error message
      | none => .ok (read (node.chain now)), ⟨now, s.asked + 1⟩)

def provider (node : MovingNode) : HeadProvider Moment where
  getChainId := node.ask fun _ => node.chainId
  getBlockNumber := node.ask fun chain => chain.length - 1
  getBlockByNumber
    | .latest => node.ask fun chain => chain.getLast?.map fun block => ⟨block.hash⟩
    | .number height => node.ask fun chain => chain[height]?.map fun block => ⟨block.hash⟩

/-- The height of the head at a moment. -/
def headHeight (node : MovingNode) (t : Nat) : Nat := (node.chain t).length - 1

/-- The moment at which the number is answered, of a call that starts at `start`; then the latest
block, and the genesis. -/
def numberAt (node : MovingNode) (start : Nat) : Nat := start + node.wait 0 + node.wait 1

def latestAt (node : MovingNode) (start : Nat) : Nat := node.numberAt start + node.wait 2

def genesisAt (node : MovingNode) (start : Nat) : Nat := node.latestAt start + node.wait 3

/-- The blocks of all moments. -/
def blocks (node : MovingNode) : Set BlockHeader := {block | ∃ t, block ∈ node.chain t}

end MovingNode

section
variable {node : MovingNode} {start height : Nat} {captured : ChainHead} {s : Moment}
  {block : BlockHeader} {t : Nat}

theorem wp_ask {α : Type} {read : List BlockHeader → α} {Q : α → Moment → Prop} {s : Moment}
    (h : Q (read (node.chain (s.now + node.wait s.asked))) ⟨s.now + node.wait s.asked, s.asked + 1⟩) :
    wp (mapError RpcError.request (node.ask read)) Q (fun _ _ => True) s := by
  refine wp_mapError ?_
  unfold MovingNode.ask
  cases hfault : node.fault s.asked with
  | some message =>
    refine wp_of_eq (r := .error message) (t := ⟨s.now + node.wait s.asked, s.asked + 1⟩) ?_ (by simp)
      (fun _ _ => trivial)
    rw [exec_mk, hfault]
  | none =>
    refine wp_of_eq (r := .ok (read (node.chain (s.now + node.wait s.asked))))
      (t := ⟨s.now + node.wait s.asked, s.asked + 1⟩) ?_ ?_ (by simp)
    · rw [exec_mk, hfault]
    · intro a ha
      cases ha
      exact h

/-- **The call**: its number is the height at one moment, its hash that of the head at a later one. -/
theorem head_reads : wp node.provider.head
    (fun captured s => captured.number = node.headHeight (node.numberAt start) ∧
      (∃ block, (node.chain (node.latestAt start)).getLast? = some block ∧ captured.hash = block.hash) ∧
      s.now = node.genesisAt start)
    (fun _ _ => True) ⟨start, 0⟩ := by
  unfold HeadProvider.head
  rw [wp_bind]
  refine wp_ask ?_
  rw [wp_bind]
  refine wp_ask ?_
  rw [wp_bind]
  refine wp_ask ?_
  rw [wp_bind, wp_lift]
  refine ⟨fun latest hlatest => ?_, fun _ _ => trivial⟩
  rw [wp_bind]
  refine wp_ask ?_
  rw [wp_bind, wp_lift]
  refine ⟨fun genesis _ => ⟨rfl, ?_, rfl⟩, fun _ _ => trivial⟩
  have hread : requireBlock "latest" ((node.chain (node.latestAt start)).getLast?.map
      fun block => ⟨block.hash⟩) = .ok latest := hlatest
  cases hlast : (node.chain (node.latestAt start)).getLast? with
  | none =>
    rw [hlast] at hread
    cases hread
  | some block =>
    rw [hlast] at hread
    cases hread
    exact ⟨block, rfl, rfl⟩

/-- The head is the block at the height of the head. -/
theorem head_at_height (h : (node.chain t).getLast? = some block) :
    (node.chain t)[node.headHeight t]? = some block := by
  rwa [List.getLast?_eq_getElem?] at h

/-- The head is a block of some height at another moment only if it is the head's height. -/
theorem headHeight_eq (hV : HashId node.blocks) {other : BlockHeader} {u : Nat}
    (hlast : (node.chain u).getLast? = some block) (hother : (node.chain t)[height]? = some other)
    (hhash : other.hash = block.hash) : height = node.headHeight u := by
  obtain rfl : other = block :=
    hV ⟨t, List.mem_of_getElem? hother⟩ ⟨u, List.mem_of_getLast? hlast⟩ hhash
  rw [← node.height_eq t height other hother]
  exact node.height_eq u _ other (head_at_height hlast)

/-- **Exactly when the captured head is one block**: at some moment of the call the block at the
number had the hash, if and only if the height of the head was the same when the number and when the
latest block were answered. -/
theorem head_one_block_iff (hV : HashId node.blocks)
    (hrun : exec node.provider.head ⟨start, 0⟩ = (.ok captured, s)) :
    (∃ t, start ≤ t ∧ t ≤ s.now ∧
        ((node.chain t)[captured.number]?).map (·.hash) = some captured.hash) ↔
      node.headHeight (node.numberAt start) = node.headHeight (node.latestAt start) := by
  obtain ⟨hnumber, ⟨block, hlast, hhash⟩, hend⟩ := wp_ok head_reads hrun
  constructor
  · rintro ⟨t, -, -, hfound⟩
    obtain ⟨other, hother, hsame⟩ := Option.map_eq_some_iff.1 hfound
    rw [← hnumber]
    exact headHeight_eq hV hlast hother (hsame.trans hhash)
  · intro hsame
    refine ⟨node.latestAt start, ?_, ?_, ?_⟩
    · unfold MovingNode.latestAt MovingNode.numberAt
      omega
    · rw [hend]
      exact Nat.le_add_right _ _
    · rw [hnumber, hsame, head_at_height hlast, hhash]
      rfl

end

/-! ## A block between two requests -/

/-- A chain of three blocks; the third comes at the moment `arrival`. -/
def growingNode (arrival : Nat) : MovingNode where
  chainId := 1
  chain t := if t < arrival then [⟨10, 0, 0⟩, ⟨11, 10, 1⟩] else [⟨10, 0, 0⟩, ⟨11, 10, 1⟩, ⟨12, 11, 2⟩]
  wait _ := 1
  fault _ := none
  chain_ne t := by split <;> simp
  height_eq t height block h := by
    split at h
    · rcases height with _ | _ | height <;> simp at h <;> subst h <;> rfl
    · rcases height with _ | _ | _ | height <;> simp at h <;> subst h <;> rfl

theorem growingNode_hashId (arrival : Nat) : HashId (growingNode arrival).blocks := by
  have hmem : ∀ block ∈ (growingNode arrival).blocks,
      block ∈ [(⟨10, 0, 0⟩ : BlockHeader), ⟨11, 10, 1⟩, ⟨12, 11, 2⟩] := by
    rintro block ⟨t, ht⟩
    unfold growingNode at ht
    dsimp only at ht
    split at ht
    · exact List.mem_append_left [⟨12, 11, 2⟩] ht
    · exact ht
  have hdistinct : ∀ a ∈ [(⟨10, 0, 0⟩ : BlockHeader), ⟨11, 10, 1⟩, ⟨12, 11, 2⟩],
      ∀ b ∈ [(⟨10, 0, 0⟩ : BlockHeader), ⟨11, 10, 1⟩, ⟨12, 11, 2⟩], a.hash = b.hash → a = b := by decide
  exact fun a ha b hb hab => hdistinct a (hmem a ha) b (hmem b hb) hab

/-- `head_one_block_iff` where the block comes before the call. -/
theorem head_one_block_iff_still : ∃ t, 0 ≤ t ∧ t ≤ 4 ∧
    (((growingNode 1).chain t)[2]?).map (·.hash) = some 12 :=
  (@head_one_block_iff (growingNode 1) 0 ⟨1, 2, 12, 10⟩ ⟨4, 4⟩ (growingNode_hashId 1) rfl).2 (by decide)

/-- A block arrives after the number was answered: the number is the old one, the hash the new one. -/
theorem head_two_blocks :
    exec (growingNode 3).provider.head ⟨0, 0⟩ = (.ok ⟨1, 1, 12, 10⟩, ⟨4, 4⟩) ∧
      ¬ ∃ t, 0 ≤ t ∧ t ≤ 4 ∧ (((growingNode 3).chain t)[1]?).map (·.hash) = some 12 := by
  refine ⟨rfl, ?_⟩
  rintro ⟨t, -, -, h⟩
  unfold growingNode at h
  dsimp only at h
  split at h <;> exact absurd h (by decide)

end Chainweave.Rpc
