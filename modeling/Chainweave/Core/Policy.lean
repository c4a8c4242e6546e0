import Chainweave.Core.Backfill

/-!
# Range sizes and retries

`crates/chainweave-core/src/backfill.rs`: how many blocks the next `eth_getLogs`
asks for, and what a failed request leads to. A `Duration` is its nanoseconds.
-/
namespace Chainweave.Backfill

/-- mirrors crates/chainweave-core/src/backfill.rs:33-37 -/
def BackfillRange.contains (range : BackfillRange) (height : Nat) : Bool :=
  range.fromBlock ≤ height ∧ height ≤ range.toBlock

/-- The heights of a range, lowest first. -/
def BackfillRange.heights (range : BackfillRange) : List Nat :=
  List.range' range.fromBlock (range.toBlock + 1 - range.fromBlock)

theorem mem_heights_iff {range : BackfillRange} {n : Nat} :
    n ∈ range.heights ↔ range.fromBlock ≤ n ∧ n ≤ range.toBlock := by
  unfold BackfillRange.heights
  rw [List.mem_range'_1]
  omega

/-! ## The sizer -/

/-- Every constructor checks the bounds, and each step stays within them.
mirrors crates/chainweave-core/src/backfill.rs:95-100 -/
structure LogRangeSizer where
  currentBlocks : Nat
  minBlocks : Nat
  maxBlocks : Nat
  minBlocks_pos : 0 < minBlocks
  minBlocks_le : minBlocks ≤ currentBlocks
  currentBlocks_le : currentBlocks ≤ maxBlocks

namespace LogRangeSizer

/-- mirrors crates/chainweave-core/src/backfill.rs:103-129 -/
def new (initialBlocks minBlocks maxBlocks : Nat) : Except BackfillError LogRangeSizer :=
  if hpos : minBlocks = 0 ∨ initialBlocks = 0 ∨ maxBlocks = 0 then .error .emptyRangeSpan
  else if maxBlocks < minBlocks then .error (.invalidSizerBounds minBlocks maxBlocks)
  else if hin : initialBlocks < minBlocks ∨ maxBlocks < initialBlocks then
    .error (.initialSizerOutOfBounds initialBlocks minBlocks maxBlocks)
  else .ok {
    currentBlocks := initialBlocks
    minBlocks
    maxBlocks
    minBlocks_pos := by omega
    minBlocks_le := by omega
    currentBlocks_le := by omega }

/-- mirrors crates/chainweave-core/src/backfill.rs:136-142 -/
def recordSuccess (self : LogRangeSizer) : LogRangeSizer :=
  { self with
    currentBlocks := max (min (min (self.currentBlocks * 2) u64Max) self.maxBlocks) self.minBlocks
    minBlocks_le := by omega
    currentBlocks_le := by have := self.minBlocks_le; have := self.currentBlocks_le; omega }

/-- mirrors crates/chainweave-core/src/backfill.rs:144-146 -/
def recordProviderLimit (self : LogRangeSizer) : LogRangeSizer :=
  { self with
    currentBlocks := max (self.currentBlocks / 2) self.minBlocks
    minBlocks_le := by omega
    currentBlocks_le := by have := self.minBlocks_le; have := self.currentBlocks_le; omega }

/-- mirrors crates/chainweave-core/src/backfill.rs:148-159 -/
def nextRange (self : LogRangeSizer) (fromBlock targetBlock : Nat) : Option BackfillRange :=
  if targetBlock < fromBlock then none
  else some ⟨fromBlock, min (satAdd fromBlock (self.currentBlocks - 1)) targetBlock⟩

end LogRangeSizer

/-! ## Retries -/

/-- mirrors crates/chainweave-core/src/backfill.rs:162-169 -/
inductive RpcFailure where
  | timeout
  | rateLimited (retryAfter : Option Nat)
  | providerLimit
  | transient
  | permanent
  deriving DecidableEq, Repr

/-- mirrors crates/chainweave-core/src/backfill.rs:181-210 -/
def RpcFailure.fromRpcMessage (message : String) : RpcFailure :=
  let lower := message.toList.map Char.toLower
  let contains (text : String) : Bool := text.toList <:+: lower
  if contains "too many requests" || contains "rate limit" || contains "rate-limit" ||
      contains " 429" || contains "status 429" then .rateLimited none
  else if contains "more than" || contains "too many results" || contains "response size" ||
      contains "block range" || contains "limit exceeded" ||
      contains "query timeout exceeded" then .providerLimit
  else if contains "timed out" || contains "timeout" || contains "deadline" then .timeout
  else if contains "pruned history unavailable" then .transient
  else .permanent

/-- mirrors crates/chainweave-core/src/backfill.rs:278-282 -/
inductive RetryDecision where
  | retryAfter (delay : Nat)
  | giveUp
  deriving DecidableEq, Repr

/-- mirrors crates/chainweave-core/src/backfill.rs:213-219 -/
structure RetryPolicy where
  maxAttempts : Nat
  baseDelay : Nat
  maxDelay : Nat
  jitter : Nat
  maxAttempts_pos : 0 < maxAttempts
  baseDelay_pos : 0 < baseDelay
  baseDelay_le : baseDelay ≤ maxDelay

namespace RetryPolicy

/-- mirrors crates/chainweave-core/src/backfill.rs:221-242 -/
def new (maxAttempts baseDelay maxDelay jitter : Nat) : Except BackfillError RetryPolicy :=
  if hattempts : maxAttempts = 0 then .error .emptyRetryAttempts
  else if hdelay : baseDelay = 0 ∨ maxDelay = 0 then .error .emptyRetryDelay
  else if hbounds : maxDelay < baseDelay then .error .invalidRetryBounds
  else .ok {
    maxAttempts
    baseDelay
    maxDelay
    jitter
    maxAttempts_pos := Nat.pos_of_ne_zero hattempts
    baseDelay_pos := by omega
    baseDelay_le := Nat.le_of_not_lt hbounds }

/-- Nanoseconds of a millisecond. -/
def millisecond : Nat := 10 ^ 6

/-- mirrors crates/chainweave-core/src/backfill.rs:269-275 -/
def jitterFor (self : RetryPolicy) (attempt : Nat) : Nat :=
  let jitterMs := min (self.jitter / millisecond) u64Max
  if jitterMs = 0 then 0 else attempt * 37 % (jitterMs + 1) * millisecond

/-- The delays saturate beyond `max_delay`, which bounds them anyway.
mirrors crates/chainweave-core/src/backfill.rs:258-267 -/
def backoff (self : RetryPolicy) (attempt : Nat) : Nat :=
  let base := min (self.baseDelay * 2 ^ min (attempt - 1) 31) self.maxDelay
  min (base + self.jitterFor attempt) self.maxDelay

/-- mirrors crates/chainweave-core/src/backfill.rs:245-256 -/
def decision (self : RetryPolicy) (failure : RpcFailure) (attempt : Nat) : RetryDecision :=
  if failure = .permanent ∨ self.maxAttempts ≤ attempt then .giveUp
  else
    match failure with
    | .rateLimited (some delay) => .retryAfter (min delay self.maxDelay)
    | _ => .retryAfter (self.backoff attempt)

end RetryPolicy

end Chainweave.Backfill
