import Mathlib.Data.Finset.Insert
import Mathlib.Data.BitVec
import Std.Data.TreeMap
import Chainweave.Lib.Prog
import Chainweave.Lib.HashLink

/-!
# The canonical chain state

`crates/chainweave-core/src/chain.rs`: headers, transition batches, the header
cache and `ChainState`, which turns an observed head into an ordered list of
rollbacks and applies.

* A block hash is a 256-bit word; the code only compares hashes.
* Heights are `Nat`. The source's `u64` sums here are `height + 1`; they differ
  from `Nat` only at `u64::MAX`, where the source overflows. `Core/Wrapping` has
  the functions with the sums of a release build, and says on which heads the
  two differ.
* `BTreeMap` and `HashMap` are `Std.TreeMap`, `HashSet` is `Finset`.
* `AncestryResolver` is a record of programs over the resolver's own state, so
  an answer may depend on everything asked before.
* The two loops of a reorg stop when the collected list is longer than
  `max_reorg_depth`; they recurse on `left`, the length still allowed.
-/
namespace Chainweave.Chain

open Stateful

abbrev BlockHash := BitVec 256

/-- mirrors crates/chainweave-core/src/chain.rs:7-23 -/
structure BlockHeader where
  hash : BlockHash
  parentHash : BlockHash
  height : Nat
  deriving DecidableEq, Repr, Inhabited

instance : HashLink.Block BlockHeader BlockHash where
  hash := BlockHeader.hash
  parentHash := BlockHeader.parentHash
  height := BlockHeader.height

@[simp] theorem block_hash (h : BlockHeader) : HashLink.Block.hash h = h.hash := rfl
@[simp] theorem block_parentHash (h : BlockHeader) : HashLink.Block.parentHash h = h.parentHash := rfl
@[simp] theorem block_height (h : BlockHeader) : HashLink.Block.height h = h.height := rfl

/-- mirrors crates/chainweave-core/src/chain.rs:25-38 -/
inductive ChainEvent where
  | apply (header : BlockHeader)
  | rollback (header : BlockHeader)
  deriving DecidableEq, Repr

def ChainEvent.header : ChainEvent → BlockHeader
  | .apply header => header
  | .rollback header => header

def ChainEvent.isRollback : ChainEvent → Bool
  | .apply _ => false
  | .rollback _ => true

/-- mirrors crates/chainweave-core/src/chain.rs:40-47 -/
inductive ChainTransition where
  | bootstrap | duplicate | extend | gap | reorg
  deriving DecidableEq, Repr

/-- mirrors crates/chainweave-core/src/chain.rs:49-61 -/
structure ChainBatch where
  transition : ChainTransition
  commonAncestor : Option BlockHeader
  events : List ChainEvent
  deriving DecidableEq, Repr

def ChainBatch.isEmpty (batch : ChainBatch) : Bool := batch.events.isEmpty

/-- mirrors crates/chainweave-core/src/chain.rs:92-105 -/
structure ResolverError where
  message : String
  deriving DecidableEq, Repr

/-- mirrors crates/chainweave-core/src/chain.rs:107-145 -/
inductive ChainError where
  | emptyHeaderCache
  | emptyMaxReorgDepth
  | newHeadBehindTip (newHeight tipHeight : Nat)
  | invalidExtensionHeight (newHeight tipHeight : Nat)
  | missingParent (hash : BlockHash)
  | invalidParentLink (childHeight parentHeight : Nat) (expectedHash actualHash : BlockHash)
  | maxDepthExceeded (maxDepth : Nat)
  | finalizedBoundary (ancestorHeight finalizedHeight : Nat)
  | emptyCanonicalChain
  | brokenCanonicalChain (height : Nat)
  | resolver (error : ResolverError)
  deriving DecidableEq, Repr

/-- The three lookups of the trait, over the resolver's own state `ρ`.
mirrors crates/chainweave-core/src/chain.rs:63-90 -/
structure AncestryResolver (ρ : Type) where
  headerByHash : BlockHash → Prog ρ ResolverError (Option BlockHeader)
  canonicalHeaderByHash : BlockHash → Prog ρ ResolverError (Option BlockHeader)
  canonicalHeaderAtHeight : Nat → Prog ρ ResolverError (Option BlockHeader)

/-! ## The header cache -/

/-- mirrors crates/chainweave-core/src/chain.rs:537-542 -/
structure HeaderCache where
  capacity : Nat
  order : List BlockHash
  headers : Std.TreeMap BlockHash BlockHeader

namespace HeaderCache

/-- mirrors crates/chainweave-core/src/chain.rs:545-551 -/
def new (capacity : Nat) : HeaderCache := { capacity, order := [], headers := ∅ }

/-- `order.pop_front()`, and the entry of the hash popped removed.
mirrors crates/chainweave-core/src/chain.rs:561-565 -/
def evict (cache : HeaderCache) : HeaderCache :=
  if cache.order.length = cache.capacity then
    match cache.order with
    | [] => cache
    | evicted :: order => { cache with order, headers := cache.headers.erase evicted }
  else cache

/-- mirrors crates/chainweave-core/src/chain.rs:553-569 -/
def insert (cache : HeaderCache) (header : BlockHeader) : HeaderCache :=
  if header.hash ∈ cache.headers then
    { cache with headers := cache.headers.insert header.hash header }
  else
    { cache.evict with
      order := cache.evict.order ++ [header.hash]
      headers := cache.evict.headers.insert header.hash header }

/-- mirrors crates/chainweave-core/src/chain.rs:571-573 -/
def get (cache : HeaderCache) (hash : BlockHash) : Option BlockHeader := cache.headers[hash]?

/-- mirrors crates/chainweave-core/src/chain.rs:575-577 -/
def len (cache : HeaderCache) : Nat := cache.headers.size

end HeaderCache

/-! ## Chain state -/

/-- mirrors crates/chainweave-core/src/chain.rs:147-155; every constructor refuses a zero depth. -/
structure ChainState where
  cache : HeaderCache
  maxReorgDepth : Nat
  maxReorgDepth_pos : 0 < maxReorgDepth
  finalizedHeight : Option Nat
  tip : Option BlockHeader
  canonicalByHeight : Std.TreeMap Nat BlockHeader
  canonicalHashes : Finset BlockHash

namespace ChainState

/-- mirrors crates/chainweave-core/src/chain.rs:163-179 -/
def new (headerCacheSize maxReorgDepth : Nat) : Except ChainError ChainState :=
  if headerCacheSize = 0 then .error .emptyHeaderCache
  else if h : maxReorgDepth = 0 then .error .emptyMaxReorgDepth
  else .ok {
    cache := HeaderCache.new headerCacheSize
    maxReorgDepth
    maxReorgDepth_pos := Nat.pos_of_ne_zero h
    finalizedHeight := none
    tip := none
    canonicalByHeight := ∅
    canonicalHashes := ∅ }

theorem new_eq {headerCacheSize maxReorgDepth : Nat} {self : ChainState}
    (h : new headerCacheSize maxReorgDepth = .ok self) :
    ∃ hdepth : 0 < maxReorgDepth, self =
      ⟨HeaderCache.new headerCacheSize, maxReorgDepth, hdepth, none, none, ∅, ∅⟩ := by
  unfold new at h
  split at h
  · cases h
  split at h
  · cases h
  · rename_i hdepth
    cases h
    exact ⟨Nat.pos_of_ne_zero hdepth, rfl⟩

/-- mirrors crates/chainweave-core/src/chain.rs:475-479 -/
def insertCanonical (self : ChainState) (header : BlockHeader) : ChainState :=
  { self with
    cache := self.cache.insert header
    canonicalByHeight := self.canonicalByHeight.insert header.height header
    canonicalHashes := insert header.hash self.canonicalHashes }

/-- mirrors crates/chainweave-core/src/chain.rs:481-491 -/
def removeCanonical (self : ChainState) (header : BlockHeader) : ChainState :=
  if (self.canonicalByHeight[header.height]?).any (·.hash = header.hash) then
    { self with
      cache := self.cache.insert header
      canonicalByHeight := self.canonicalByHeight.erase header.height
      canonicalHashes := self.canonicalHashes.erase header.hash }
  else { self with cache := self.cache.insert header }

/-- mirrors crates/chainweave-core/src/chain.rs:189-198 -/
def fromTip (tip : BlockHeader) (headerCacheSize maxReorgDepth : Nat) :
    Except ChainError ChainState := do
  let state ← new headerCacheSize maxReorgDepth
  return { state.insertCanonical tip with tip := some tip }

/-- The first window of two headers that do not link, by the child's height.
mirrors crates/chainweave-core/src/chain.rs:215-224 -/
def brokenLink : List BlockHeader → Option Nat
  | parent :: child :: headers =>
    if child.height ≠ parent.height + 1 ∨ child.parentHash ≠ parent.hash then some child.height
    else brokenLink (child :: headers)
  | _ => none

/-- mirrors crates/chainweave-core/src/chain.rs:206-231 -/
def fromCanonicalChain (headers : List BlockHeader) (headerCacheSize maxReorgDepth : Nat) :
    Except ChainError ChainState := do
  if headers.isEmpty then throw .emptyCanonicalChain
  let state ← new headerCacheSize maxReorgDepth
  match brokenLink headers with
  | some height => throw (.brokenCanonicalChain height)
  | none => return { headers.foldl insertCanonical state with tip := headers.getLast? }

/-- mirrors crates/chainweave-core/src/chain.rs:239-241 -/
def canonicalChain (self : ChainState) : List BlockHeader :=
  self.canonicalByHeight.toList.map (·.2)

/-- mirrors crates/chainweave-core/src/chain.rs:248-250 -/
def setFinalizedHeight (self : ChainState) (finalizedHeight : Option Nat) : ChainState :=
  { self with finalizedHeight }

/-- mirrors crates/chainweave-core/src/chain.rs:467-473 -/
def isKnownCanonical (self : ChainState) (header : BlockHeader) : Bool :=
  header.hash ∈ self.canonicalHashes && self.canonicalByHeight[header.height]? == some header

/-- mirrors crates/chainweave-core/src/chain.rs:493-509 -/
def commitEvent (self : ChainState) : ChainEvent → ChainState
  | .rollback header => self.removeCanonical header
  | .apply header => self.insertCanonical header

/-- `events.iter().rev().find_map(..)`: the header of the last apply. -/
def lastApply (events : List ChainEvent) : Option BlockHeader :=
  events.reverse.findSome? fun
    | .apply header => some header
    | .rollback _ => none

/-- mirrors crates/chainweave-core/src/chain.rs:493-509 -/
def commit (self : ChainState) (batch : ChainBatch) : ChainState :=
  let state := batch.events.foldl commitEvent self
  match lastApply batch.events with
  | some header => { state with tip := some header }
  | none =>
    if batch.transition = .duplicate then { state with tip := state.tip.or batch.commonAncestor }
    else state

end ChainState

/-- mirrors crates/chainweave-core/src/chain.rs:512-523 -/
def validateSameHeader (left right : BlockHeader) : Except ChainError Unit :=
  if left = right then .ok ()
  else .error (.invalidParentLink left.height right.height left.hash right.hash)

/-- mirrors crates/chainweave-core/src/chain.rs:525-535 -/
def validateParentLink (child parent : BlockHeader) : Except ChainError Unit :=
  if child.parentHash ≠ parent.hash ∨ child.height ≠ parent.height + 1 then
    .error (.invalidParentLink child.height parent.height child.parentHash parent.hash)
  else .ok ()

namespace ChainState

variable {ρ : Type} (self : ChainState) (resolver : AncestryResolver ρ)

/-- mirrors crates/chainweave-core/src/chain.rs:399-421 -/
def canonicalMatch (header : BlockHeader) : Prog ρ ChainError (Option BlockHeader) := do
  if self.isKnownCanonical header then pure (some header)
  else
    match ← mapError .resolver (resolver.canonicalHeaderByHash header.hash) with
    | some canonical =>
      lift (validateSameHeader header canonical)
      pure (some canonical)
    | none =>
      match ← mapError .resolver (resolver.canonicalHeaderAtHeight header.height) with
      | some canonical =>
        if canonical.hash = header.hash then
          lift (validateSameHeader header canonical)
          pure (some canonical)
        else pure none
      | none => pure none

/-- The parent as the cache or the canonical map has it.
mirrors crates/chainweave-core/src/chain.rs:434-438 -/
def localParent (child : BlockHeader) : Option BlockHeader :=
  ((self.cache.get child.parentHash).or self.canonicalByHeight[child.height - 1]?).filter
    (·.hash = child.parentHash)

/-- The local parent, else the resolver's.
mirrors crates/chainweave-core/src/chain.rs:434-443 -/
def lookupParent (child : BlockHeader) : Prog ρ ChainError (Option BlockHeader) :=
  match self.localParent child with
  | some parent => pure (some parent)
  | none => mapError .resolver (resolver.headerByHash child.parentHash)

/-- mirrors crates/chainweave-core/src/chain.rs:423-453 -/
def parentFor (child : BlockHeader) : Prog ρ ChainError BlockHeader := do
  if child.height = 0 then throw (.missingParent child.parentHash)
  else
    match ← self.lookupParent resolver child with
    | none => throw (.missingParent child.parentHash)
    | some parent =>
      lift (validateParentLink child parent)
      pure parent

/-- The loop of `resolve_common_ancestor`: the ancestor, and the replacement from `current` down
to above it. -/
def resolveLoop : Nat → BlockHeader → Prog ρ ChainError (BlockHeader × List BlockHeader)
  | left, current => do
    match ← self.canonicalMatch resolver current with
    | some canonical => pure (canonical, [])
    | none =>
      match left with
      | 0 => throw (.maxDepthExceeded self.maxReorgDepth)
      | left + 1 =>
        let parent ← self.parentFor resolver current
        let (ancestor, descending) ← resolveLoop left parent
        pure (ancestor, current :: descending)

/-- mirrors crates/chainweave-core/src/chain.rs:347-369 -/
def resolveCommonAncestor (newHead : BlockHeader) :
    Prog ρ ChainError (BlockHeader × List BlockHeader) :=
  self.resolveLoop resolver self.maxReorgDepth newHead

/-- The loop of `rollback_path`. -/
def rollbackLoop (ancestor : BlockHeader) : Nat → BlockHeader → Prog ρ ChainError (List BlockHeader)
  | left, current =>
    if ancestor.height < current.height then
      match left with
      | 0 => throw (.maxDepthExceeded self.maxReorgDepth)
      | left + 1 => do
        let parent ← self.parentFor resolver current
        let rollbacks ← rollbackLoop ancestor left parent
        pure (current :: rollbacks)
    else if current.hash ≠ ancestor.hash then throw (.missingParent ancestor.hash)
    else pure []

/-- mirrors crates/chainweave-core/src/chain.rs:371-397 -/
def rollbackPath (tip ancestor : BlockHeader) : Prog ρ ChainError (List BlockHeader) :=
  self.rollbackLoop resolver ancestor self.maxReorgDepth tip

/-- mirrors crates/chainweave-core/src/chain.rs:455-465 -/
def enforceFinalizedBoundary (ancestor : BlockHeader) : Except ChainError Unit :=
  match self.finalizedHeight with
  | some finalizedHeight =>
    if ancestor.height < finalizedHeight then
      .error (.finalizedBoundary ancestor.height finalizedHeight)
    else .ok ()
  | none => .ok ()

end ChainState

namespace ChainState

variable {ρ : Type} (resolver : AncestryResolver ρ)

/-- Change the chain state, leaving the resolver's. -/
def modifySelf (f : ChainState → ChainState) : Prog (ChainState × ρ) ChainError PUnit :=
  modify fun s => (f s.1, s.2)

/-- Run a resolver program beside the chain state. -/
def onResolver {α : Type} (x : Prog ρ ChainError α) : Prog (ChainState × ρ) ChainError α :=
  zoom Prod.snd (fun r s => (s.1, r)) x

/-- The transition of a resolved batch. -/
def resolvedTransition (events : List ChainEvent) : ChainTransition :=
  if events.isEmpty then .duplicate
  else if events.any (·.isRollback) then .reorg
  else .gap

/-- mirrors crates/chainweave-core/src/chain.rs:268-345 -/
def apply (newHead : BlockHeader) : Prog (ChainState × ρ) ChainError ChainBatch := do
  let (self, _) ← get
  if self.isKnownCanonical newHead || self.tip.any (·.hash = newHead.hash) then
    modifySelf fun self => { self with cache := self.cache.insert newHead }
    pure { transition := .duplicate, commonAncestor := some newHead, events := [] }
  else
    match self.tip with
    | none =>
      if newHead.height ≠ 0 then throw (.missingParent newHead.parentHash)
      else
        let batch : ChainBatch :=
          { transition := .bootstrap, commonAncestor := none, events := [.apply newHead] }
        modifySelf (·.commit batch)
        pure batch
    | some tip =>
      if newHead.parentHash = tip.hash then
        if newHead.height ≠ tip.height + 1 then
          throw (.invalidExtensionHeight newHead.height tip.height)
        else
          let batch : ChainBatch :=
            { transition := .extend, commonAncestor := some tip, events := [.apply newHead] }
          modifySelf (·.commit batch)
          pure batch
      else
        let (ancestor, descending) ← onResolver (self.resolveCommonAncestor resolver newHead)
        lift (self.enforceFinalizedBoundary ancestor)
        let rollbacks ← onResolver (self.rollbackPath resolver tip ancestor)
        let events := rollbacks.map .rollback ++ descending.reverse.map .apply
        let batch : ChainBatch :=
          { transition := resolvedTransition events, commonAncestor := some ancestor, events }
        modifySelf (·.commit batch)
        pure batch

end ChainState

end Chainweave.Chain
