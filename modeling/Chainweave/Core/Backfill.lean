import Chainweave.Core.Chain

/-!
# Fetched ranges and the ordered commit coordinator

`crates/chainweave-core/src/backfill.rs`: block ranges, the RPC budget, fetched
ranges and `OrderedCommitCoordinator`, which holds ranges back until the one at
`next_height` is there and hands it to the sink only if it links to the last
header committed.

* A `FetchedRange` carries the check `FetchedRange::new` made.
* A `u64` is a `Nat`; `saturating_add` is `satAdd`.
* `pending` is a map from the first height of a range; the drain loop recurses on
  the number of pending ranges, since each round removes one.
* The sink is a program over its own state.
-/
namespace Chainweave.Backfill

open Stateful Chainweave.Chain

def u64Max : Nat := 2 ^ 64 - 1

/-- `u64::saturating_add`. -/
def satAdd (a b : Nat) : Nat := min (a + b) u64Max

/-- mirrors crates/chainweave-core/src/backfill.rs:7-11 -/
structure BackfillRange where
  fromBlock : Nat
  toBlock : Nat
  deriving DecidableEq, Repr

/-- mirrors crates/chainweave-core/src/backfill.rs:609-678 -/
inductive BackfillError where
  | invalidRange (fromBlock toBlock : Nat)
  | emptyRangeSpan
  | emptyWorkerCount
  | invalidSizerBounds (minBlocks maxBlocks : Nat)
  | initialSizerOutOfBounds (initialBlocks minBlocks maxBlocks : Nat)
  | emptyRetryAttempts
  | emptyRetryDelay
  | invalidRetryBounds
  | emptyRequestBudget
  | emptyCostBudget
  | requestBudgetExceeded (maxRequests : Nat)
  | costBudgetExceeded (maxCostUnits : Nat)
  | rangeBeyondTarget (toBlock targetHeight : Nat)
  | staleRange (fromBlock nextHeight : Nat)
  | duplicateRange (fromBlock : Nat)
  | missingParentAnchor (fromBlock : Nat)
  | invalidParentAnchor (anchorHeight fromBlock : Nat)
  | unexpectedParentAnchor
  | headerCountMismatch (fromBlock toBlock expected actual : Nat)
  | headerHeightMismatch (offset expected actual : Nat)
  | brokenParentLink (height : Nat)
  | emptyFetchedRange (fromBlock : Nat)
  | fetchedSuffixInvalidated (refetchFrom : Nat) (expectedParent actualParent : BlockHash)
  | commit (message : String)
  deriving DecidableEq, Repr

/-- A hash as `{:?}` prints its 32 bytes. -/
def debugHash (hash : BlockHash) : String :=
  let bytes := (List.range 32).map fun i => toString ((hash.toNat >>> (8 * (31 - i))) % 256)
  "[" ++ ", ".intercalate bytes ++ "]"

/-- mirrors crates/chainweave-core/src/backfill.rs:609-678 -/
def BackfillError.message : BackfillError → String
  | .invalidRange a b =>
    s!"invalid backfill range: from block {a} is greater than to block {b}"
  | .emptyRangeSpan => "backfill range span must be nonzero"
  | .emptyWorkerCount => "backfill worker count must be nonzero"
  | .invalidSizerBounds a b => s!"sizer min blocks {a} exceed max blocks {b}"
  | .initialSizerOutOfBounds i a b => s!"initial sizer span {i} is outside [{a}, {b}]"
  | .emptyRetryAttempts => "retry attempts must be nonzero"
  | .emptyRetryDelay => "retry delays must be nonzero"
  | .invalidRetryBounds => "base retry delay must not exceed max retry delay"
  | .emptyRequestBudget => "RPC request budget must be nonzero"
  | .emptyCostBudget => "RPC cost budget must be nonzero"
  | .requestBudgetExceeded m => s!"RPC request budget exceeded: max {m}"
  | .costBudgetExceeded m => s!"RPC cost budget exceeded: max {m}"
  | .rangeBeyondTarget b t => s!"range {b} exceeds target height {t}"
  | .staleRange a n => s!"range starting at {a} is stale; next commit height is {n}"
  | .duplicateRange a => s!"duplicate fetched range starting at {a}"
  | .missingParentAnchor a => s!"parent anchor is required for backfill starting at {a}"
  | .invalidParentAnchor h a =>
    s!"parent anchor is invalid: anchor height {h}, from block {a}"
  | .unexpectedParentAnchor => "genesis backfill must not have a parent anchor"
  | .headerCountMismatch a b e n =>
    s!"fetched range {a}-{b} returned {n} headers, expected {e}"
  | .headerHeightMismatch o e n =>
    s!"fetched header at offset {o} has height {n}, expected {e}"
  | .brokenParentLink h => s!"fetched range has a broken parent link at height {h}"
  | .emptyFetchedRange a => s!"fetched range starting at {a} was empty"
  | .fetchedSuffixInvalidated h e a =>
    s!"fetched suffix invalidated from height {h}; expected parent " ++ debugHash e ++
      ", got " ++ debugHash a
  | .commit m => s!"commit failed: {m}"

namespace BackfillRange

/-- mirrors crates/chainweave-core/src/backfill.rs:14-25 -/
def new (fromBlock toBlock : Nat) : Except BackfillError BackfillRange :=
  if toBlock < fromBlock then .error (.invalidRange fromBlock toBlock)
  else .ok { fromBlock, toBlock }

/-- mirrors crates/chainweave-core/src/backfill.rs:27-32 -/
def len (range : BackfillRange) : Nat := satAdd (range.toBlock - range.fromBlock) 1

end BackfillRange

/-! ## The RPC budget -/

/-- mirrors crates/chainweave-core/src/backfill.rs:339-344 -/
inductive RpcMethod where
  | getBlockByNumber | getBlockByHash | getLogs
  deriving DecidableEq, Repr

/-- mirrors crates/chainweave-core/src/backfill.rs:346-353 -/
def RpcMethod.defaultCost : RpcMethod → Nat
  | .getBlockByNumber => 1
  | .getBlockByHash => 1
  | .getLogs => 5

/-- Every constructor refuses a zero limit, and `record` refuses to pass one.
mirrors crates/chainweave-core/src/backfill.rs:284-290 -/
structure RpcBudget where
  maxRequests : Nat
  maxCostUnits : Nat
  requests : Nat
  costUnits : Nat
  maxRequests_pos : 0 < maxRequests
  maxCostUnits_pos : 0 < maxCostUnits
  requests_le : requests ≤ maxRequests
  costUnits_le : costUnits ≤ maxCostUnits

namespace RpcBudget

/-- mirrors crates/chainweave-core/src/backfill.rs:293-306 -/
def new (maxRequests maxCostUnits : Nat) : Except BackfillError RpcBudget :=
  if hr : maxRequests = 0 then .error .emptyRequestBudget
  else if hc : maxCostUnits = 0 then .error .emptyCostBudget
  else .ok {
    maxRequests
    maxCostUnits
    requests := 0
    costUnits := 0
    maxRequests_pos := Nat.pos_of_ne_zero hr
    maxCostUnits_pos := Nat.pos_of_ne_zero hc
    requests_le := Nat.zero_le _
    costUnits_le := Nat.zero_le _ }

/-- mirrors crates/chainweave-core/src/backfill.rs:308-328 -/
def record (self : RpcBudget) (method : RpcMethod) (costUnits : Nat) :
    Except BackfillError RpcBudget :=
  let nextRequests := satAdd self.requests 1
  let nextCost := satAdd self.costUnits (max costUnits method.defaultCost)
  if hr : self.maxRequests < nextRequests then .error (.requestBudgetExceeded self.maxRequests)
  else if hc : self.maxCostUnits < nextCost then .error (.costBudgetExceeded self.maxCostUnits)
  else .ok { self with
    requests := nextRequests
    costUnits := nextCost
    requests_le := Nat.le_of_not_lt hr
    costUnits_le := Nat.le_of_not_lt hc }

section
variable {budget next : RpcBudget} {method : RpcMethod} {maxRequests maxCostUnits costUnits : Nat}
  {e : BackfillError}

theorem new_ok (h : new maxRequests maxCostUnits = .ok budget) :
    budget.maxRequests = maxRequests ∧ budget.maxCostUnits = maxCostUnits ∧
      budget.requests = 0 ∧ budget.costUnits = 0 := by
  unfold new at h
  split at h
  · cases h
  split at h
  · cases h
  cases h
  exact ⟨rfl, rfl, rfl, rfl⟩

/-- The request counted; that it was within the limits is in `next` itself. -/
theorem record_ok (h : budget.record method costUnits = .ok next) :
    next.maxRequests = budget.maxRequests ∧ next.maxCostUnits = budget.maxCostUnits ∧
      next.requests = satAdd budget.requests 1 ∧
        next.costUnits = satAdd budget.costUnits (max costUnits method.defaultCost) := by
  unfold record at h
  dsimp only at h
  split at h
  · cases h
  split at h
  · cases h
  cases h
  exact ⟨rfl, rfl, rfl, rfl⟩

theorem record_error (h : budget.record method costUnits = .error e) :
    budget.maxRequests < satAdd budget.requests 1 ∨
      budget.maxCostUnits < satAdd budget.costUnits (max costUnits method.defaultCost) := by
  unfold record at h
  dsimp only at h
  split at h
  · rename_i hr
    exact .inl hr
  split at h
  · rename_i hc
    exact .inr hc
  · cases h

end

end RpcBudget

/-! ## Fetched ranges -/

/-- The loop of `validate_headers`: `offset` is the index of the first header, `parent` the header
before it. -/
def validateFrom (range : BackfillRange) (offset : Nat) (parent : Option BlockHeader) :
    List BlockHeader → Except BackfillError Unit
  | [] => .ok ()
  | header :: headers =>
    if header.height ≠ range.fromBlock + offset then
      .error (.headerHeightMismatch offset (range.fromBlock + offset) header.height)
    else if parent.any fun p => header.parentHash ≠ p.hash ∨ header.height ≠ p.height + 1 then
      .error (.brokenParentLink header.height)
    else validateFrom range (offset + 1) (some header) headers

/-- mirrors crates/chainweave-core/src/backfill.rs:686-716 -/
def validateHeaders (range : BackfillRange) (headers : List BlockHeader) :
    Except BackfillError Unit :=
  if headers.length ≠ range.len then
    .error (.headerCountMismatch range.fromBlock range.toBlock range.len headers.length)
  else validateFrom range 0 none headers

/-- Built by `FetchedRange::new` only, which keeps its check.
mirrors crates/chainweave-core/src/backfill.rs:356-361 -/
structure FetchedRange (L : Type) where
  range : BackfillRange
  headers : List BlockHeader
  logs : List L
  valid : validateHeaders range headers = .ok ()

variable {L : Type}

namespace FetchedRange

/-- mirrors crates/chainweave-core/src/backfill.rs:364-375 -/
def new (range : BackfillRange) (headers : List BlockHeader) (logs : List L) :
    Except BackfillError (FetchedRange L) :=
  match h : validateHeaders range headers with
  | .ok () => .ok { range, headers, logs, valid := h }
  | .error e => .error e

/-- mirrors crates/chainweave-core/src/backfill.rs:377-380 -/
def firstHeader (fetched : FetchedRange L) : Option BlockHeader := fetched.headers.head?

/-- mirrors crates/chainweave-core/src/backfill.rs:382-385 -/
def lastHeader (fetched : FetchedRange L) : Option BlockHeader := fetched.headers.getLast?

section
variable {range : BackfillRange} {headers : List BlockHeader} {logs : List L}
  {fetched : FetchedRange L} {e : BackfillError}

theorem new_ok (h : new range headers logs = .ok fetched) :
    fetched.range = range ∧ fetched.headers = headers ∧ fetched.logs = logs := by
  unfold new at h
  split at h
  · cases h
    exact ⟨rfl, rfl, rfl⟩
  · cases h

theorem new_error (h : new range headers logs = .error e) :
    validateHeaders range headers = .error e := by
  unfold new at h
  split at h
  · cases h
  · rename_i e' hv
    cases h
    exact hv

/-- Headers that pass the check make a range, with any logs. -/
theorem new_of_valid (h : validateHeaders range headers = .ok ()) :
    ∃ fetched : FetchedRange L, new range headers logs = .ok fetched := by
  cases hnew : new range headers logs with
  | ok fetched => exact ⟨fetched, rfl⟩
  | error e =>
    have he := new_error hnew
    rw [h] at he
    cases he

end

end FetchedRange

/-- `RangeCommitSink::commit_range`, over the sink's own state.
mirrors crates/chainweave-core/src/backfill.rs:396-400 -/
abbrev CommitRange (κ L : Type) := FetchedRange L → Prog κ String Unit

/-! ## The coordinator -/

/-- mirrors crates/chainweave-core/src/backfill.rs:432-438 -/
structure OrderedCommitCoordinator (L : Type) where
  nextHeight : Nat
  targetHeight : Nat
  parentAnchor : Option BlockHeader
  pending : Std.TreeMap Nat (FetchedRange L)

/-- mirrors crates/chainweave-core/src/backfill.rs:601-607 -/
structure CommitProgress where
  committedRanges : Nat := 0
  committedBlocks : Nat := 0
  committedLogs : Nat := 0
  lastCommittedHeight : Option Nat := none
  deriving DecidableEq, Repr

namespace OrderedCommitCoordinator

/-- mirrors crates/chainweave-core/src/backfill.rs:441-472 -/
def new (fromBlock targetHeight : Nat) (parentAnchor : Option BlockHeader) :
    Except BackfillError (OrderedCommitCoordinator L) :=
  let coordinator := { nextHeight := fromBlock, targetHeight, parentAnchor, pending := ∅ }
  if targetHeight < fromBlock then .error (.invalidRange fromBlock targetHeight)
  else if fromBlock = 0 then
    if parentAnchor.isSome then .error .unexpectedParentAnchor else .ok coordinator
  else
    match parentAnchor with
    | none => .error (.missingParentAnchor fromBlock)
    | some anchor =>
      if anchor.height + 1 ≠ fromBlock then .error (.invalidParentAnchor anchor.height fromBlock)
      else .ok coordinator

/-- mirrors crates/chainweave-core/src/backfill.rs:505-508 -/
def isComplete (self : OrderedCommitCoordinator L) : Bool := self.targetHeight < self.nextHeight

/-- A repeated start replaces the pending range before the error is returned.
mirrors crates/chainweave-core/src/backfill.rs:552-570 -/
def insertPending (self : OrderedCommitCoordinator L) (fetched : FetchedRange L) :
    Except BackfillError Unit × OrderedCommitCoordinator L :=
  let fromBlock := fetched.range.fromBlock
  if self.targetHeight < fetched.range.toBlock then
    (.error (.rangeBeyondTarget fetched.range.toBlock self.targetHeight), self)
  else if fromBlock < self.nextHeight then
    (.error (.staleRange fromBlock self.nextHeight), self)
  else
    let inserted := { self with pending := self.pending.insert fromBlock fetched }
    if fromBlock ∈ self.pending then (.error (.duplicateRange fromBlock), inserted)
    else (.ok (), inserted)

/-- `split_off` keeps the ranges from `refetch_from` on, which `clear` then drops: nothing stays.
mirrors crates/chainweave-core/src/backfill.rs:595-598 -/
def discardSuffix (self : OrderedCommitCoordinator L) (refetchFrom : Nat) :
    OrderedCommitCoordinator L :=
  let self := { self with pending := self.pending.filter fun height _ => refetchFrom ≤ height }
  { self with pending := ∅ }

/-- mirrors crates/chainweave-core/src/backfill.rs:572-593 -/
def validateReadyRange (self : OrderedCommitCoordinator L) (fetched : FetchedRange L) :
    Except BackfillError BlockHeader × OrderedCommitCoordinator L :=
  let mismatch : Option (BlockHeader × BlockHeader) := do
    let first ← fetched.firstHeader
    let anchor ← self.parentAnchor
    if first.parentHash ≠ anchor.hash ∨ first.height ≠ anchor.height + 1 then
      some (first, anchor)
    else none
  match mismatch with
  | some (first, anchor) =>
    (.error (.fetchedSuffixInvalidated first.height anchor.hash first.parentHash),
      self.discardSuffix first.height)
  | none =>
    match fetched.lastHeader with
    | some last => (.ok last, self)
    | none => (.error (.emptyFetchedRange self.nextHeight), self)

variable {κ : Type} (commitRange : CommitRange κ L)

/-- A method of the coordinator, beside the sink's state. -/
def onSelf {α : Type} (f : OrderedCommitCoordinator L →
    Except BackfillError α × OrderedCommitCoordinator L) :
    Prog (OrderedCommitCoordinator L × κ) BackfillError α :=
  ExceptT.mk fun s => ((f s.1).1, ((f s.1).2, s.2))

/-- `sink.commit_range(fetched)?`, the message wrapped by `From<String>`. -/
def onSink (fetched : FetchedRange L) : Prog (OrderedCommitCoordinator L × κ) BackfillError Unit :=
  mapError .commit (zoom Prod.snd (fun k s => (s.1, k)) (commitRange fetched))

/-- The loop of `drain_ready`, `left` the number of pending ranges.
mirrors crates/chainweave-core/src/backfill.rs:510-529 -/
def drainLoop : Nat → CommitProgress → Prog (OrderedCommitCoordinator L × κ) BackfillError CommitProgress
  | 0, progress => pure progress
  | left + 1, progress => do
    let (self, _) ← get
    match self.pending[self.nextHeight]? with
    | none => pure progress
    | some fetched =>
      modify fun s => ({ s.1 with pending := s.1.pending.erase s.1.nextHeight }, s.2)
      let last ← onSelf (·.validateReadyRange fetched)
      onSink commitRange fetched
      modify fun s =>
        ({ s.1 with parentAnchor := some last, nextHeight := satAdd last.height 1 }, s.2)
      drainLoop left {
        committedRanges := progress.committedRanges + 1
        committedBlocks := progress.committedBlocks + fetched.range.len
        committedLogs := progress.committedLogs + fetched.logs.length
        lastCommittedHeight := some last.height }

/-- mirrors crates/chainweave-core/src/backfill.rs:510-529 -/
def drainReady : Prog (OrderedCommitCoordinator L × κ) BackfillError CommitProgress := do
  let (self, _) ← get
  drainLoop commitRange self.pending.size {}

/-- `push`, and `push_async` with a sink that is awaited.
mirrors crates/chainweave-core/src/backfill.rs:474-498 -/
def push (fetched : FetchedRange L) :
    Prog (OrderedCommitCoordinator L × κ) BackfillError CommitProgress := do
  onSelf (·.insertPending fetched)
  drainReady commitRange

end OrderedCommitCoordinator

end Chainweave.Backfill
