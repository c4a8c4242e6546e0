import Chainweave.Core.Coordinator
import Chainweave.Core.Policy

/-!
# Ranges up to the last `u64`

`crates/chainweave-core/src/backfill.rs`: the check of fetched headers and the cut of
a range into requests, where their arithmetic comes close to `u64::MAX`.

* `checkedAdd`: an addition that fails where the machine's overflows. Each loop has a
  second form with it, and that form returns what the loop returns.
* `fetchedRange_new_iff`: `FetchedRange::new` accepts one header a height, each with
  the hash of the one before it as its parent.
* `Partition`, `planFrom_partition`: the ranges of a plan are a partition, up to a `to` of
  `u64::MAX`.
-/
namespace Chainweave.Backfill

open Chainweave.Chain HashLink

/-- `a + b`, unless it overflows. -/
def checkedAdd (a b : Nat) : Option Nat := if a + b ≤ u64Max then some (a + b) else none

/-- `a - b`, unless it underflows. -/
def checkedSub (a b : Nat) : Option Nat := if b ≤ a then some (a - b) else none

theorem checkedAdd_some {a b : Nat} (h : a + b ≤ u64Max) : checkedAdd a b = some (a + b) := if_pos h

theorem checkedSub_some {a b : Nat} (h : b ≤ a) : checkedSub a b = some (a - b) := if_pos h

/-! ## Headers -/

/-- The condition on the parent; `parent.height + 1` is computed only where the hashes agree.
mirrors crates/chainweave-core/src/backfill.rs:705-711 -/
def brokenLinkChecked (header : BlockHeader) : Option BlockHeader → Option Bool
  | none => some false
  | some parent =>
    if header.parentHash ≠ parent.hash then some true
    else (checkedAdd parent.height 1).map fun next => header.height ≠ next

/-- `validateFrom` with its additions.
mirrors crates/chainweave-core/src/backfill.rs:697-713 -/
def validateFromChecked (range : BackfillRange) (offset : Nat) (parent : Option BlockHeader) :
    List BlockHeader → Option (Except BackfillError Unit)
  | [] => some (.ok ())
  | header :: headers => do
    let expected ← checkedAdd range.fromBlock offset
    if header.height ≠ expected then
      return .error (.headerHeightMismatch offset expected header.height)
    if ← brokenLinkChecked header parent then
      return .error (.brokenParentLink header.height)
    validateFromChecked range (offset + 1) (some header) headers

/-- mirrors crates/chainweave-core/src/backfill.rs:686-716 -/
def validateHeadersChecked (range : BackfillRange) (headers : List BlockHeader) :
    Option (Except BackfillError Unit) :=
  if headers.length ≠ range.len then
    some (.error (.headerCountMismatch range.fromBlock range.toBlock range.len headers.length))
  else validateFromChecked range 0 none headers

section
variable {range : BackfillRange} {offset : Nat} {parent : Option BlockHeader}
  {headers : List BlockHeader}

/-- No addition overflows while the heights stay in the range: a header that is some other's parent
had the height it should have. -/
theorem validateFromChecked_eq (hbound : range.fromBlock + offset + headers.length ≤ u64Max)
    (hparent : ∀ p ∈ parent, p.height + 1 = range.fromBlock + offset) :
    validateFromChecked range offset parent headers =
      some (validateFrom range offset parent headers) := by
  induction headers generalizing offset parent with
  | nil => rfl
  | cons header headers ih =>
    rw [List.length_cons] at hbound
    unfold validateFromChecked validateFrom
    rw [checkedAdd_some (by omega)]
    by_cases hheight : header.height = range.fromBlock + offset
    · have hnext := @ih (offset + 1) (some header) (by omega) (by simp; omega)
      cases parent with
      | none => simpa [hheight, brokenLinkChecked] using hnext
      | some p =>
        have hp := hparent p rfl
        by_cases hhash : header.parentHash = p.hash
        · have hadd := checkedAdd_some (a := p.height) (b := 1) (by omega)
          simpa [hheight, brokenLinkChecked, hhash, hadd, hp] using hnext
        · simp [hheight, brokenLinkChecked, hhash]
    · simp [hheight]

theorem validateFrom_of_linked
    (hheights : headers.map (·.height) = List.range' (range.fromBlock + offset) headers.length)
    (hparent : ∀ p ∈ parent, p.height + 1 = range.fromBlock + offset)
    (hlinks : (parent.toList ++ headers).IsChain fun a b => b.parentHash = a.hash) :
    validateFrom range offset parent headers = .ok () := by
  induction headers generalizing offset parent with
  | nil => rfl
  | cons header headers ih =>
    rw [List.map_cons, List.length_cons, List.range'_succ, List.cons.injEq] at hheights
    obtain ⟨hheight, hrest⟩ := hheights
    have hnext : validateFrom range (offset + 1) (some header) headers = .ok () := by
      refine ih (by rw [hrest, Nat.add_assoc]) (by simp; omega) ?_
      cases parent with
      | none => exact hlinks
      | some p => exact (List.isChain_cons_cons.1 hlinks).2
    unfold validateFrom
    rw [if_neg (by simpa using hheight)]
    cases parent with
    | none => simpa using hnext
    | some p =>
      have hp := hparent p rfl
      have hhash : header.parentHash = p.hash := (List.isChain_cons_cons.1 hlinks).1
      simpa [hhash, hheight, hp] using hnext

/-- **`FetchedRange::new` accepts exactly the linked ranges**: one header for each height, in order,
and each after the first with the hash of the one before it as its parent. No addition of the check
overflows. -/
theorem fetchedRange_new_iff {L : Type} {fromBlock toBlock : Nat}
    (hnew : BackfillRange.new fromBlock toBlock = .ok range) (hto : toBlock < u64Max)
    (headers : List BlockHeader) (logs : List L) :
    ((∃ fetched, FetchedRange.new range headers logs = .ok fetched) ↔
      headers.map (·.height) = List.range' fromBlock (toBlock + 1 - fromBlock) ∧
        ∀ (i : Nat) (_ : i + 1 < headers.length), headers[i + 1].parentHash = headers[i].hash) ∧
    validateHeadersChecked range headers = some (validateHeaders range headers) := by
  unfold BackfillRange.new at hnew
  split at hnew
  · cases hnew
  rename_i hle
  cases hnew
  have hlen : (⟨fromBlock, toBlock⟩ : BackfillRange).len = toBlock + 1 - fromBlock := by
    unfold BackfillRange.len satAdd
    dsimp only
    omega
  refine ⟨⟨fun haccepted => ?_, fun hlinked => ?_⟩, ?_⟩
  · obtain ⟨fetched, hfetched⟩ := haccepted
    obtain ⟨hrange, hheaders, -⟩ := FetchedRange.new_ok hfetched
    have hheights := fetched.map_height
    have hlinks := fetched.linked
    rw [hrange, hheaders] at hheights
    rw [hheaders] at hlinks
    rw [hheights, hlen]
    exact ⟨rfl, fun i hi => (List.IsChain.getElem hlinks i hi).1⟩
  · obtain ⟨hheights, hlinks⟩ := hlinked
    have hcount : headers.length = toBlock + 1 - fromBlock := by
      simpa using congrArg List.length hheights
    refine FetchedRange.new_of_valid ?_
    unfold validateHeaders
    rw [if_neg (by rw [hlen, hcount]; simp)]
    refine validateFrom_of_linked ?_ (by simp) (List.isChain_iff_getElem.2 hlinks)
    rw [hheights, hcount]
    rfl
  · unfold validateHeadersChecked validateHeaders
    split
    · rfl
    · rename_i hcount
      refine validateFromChecked_eq ?_ (by simp)
      simp only [ne_eq, not_not] at hcount
      rw [hcount, hlen]
      dsimp only
      omega

/-- `fetchedRange_new_iff` for the three heights below `u64::MAX`. -/
theorem fetchedRange_new_iff_high :
    ∃ range, BackfillRange.new (u64Max - 3) (u64Max - 1) = .ok range ∧
      ∃ fetched, FetchedRange.new range
        [⟨2, 1, u64Max - 3⟩, ⟨3, 2, u64Max - 2⟩, ⟨4, 3, u64Max - 1⟩] ([] : List Unit) = .ok fetched := by
  have hnew : BackfillRange.new (u64Max - 3) (u64Max - 1) = .ok ⟨u64Max - 3, u64Max - 1⟩ := rfl
  have hlinks : ([⟨2, 1, u64Max - 3⟩, ⟨3, 2, u64Max - 2⟩, ⟨4, 3, u64Max - 1⟩] :
      List BlockHeader).IsChain fun a b => b.parentHash = a.hash := by decide
  exact ⟨_, hnew, (fetchedRange_new_iff hnew (by decide) _ _).1.2
    ⟨by decide, List.isChain_iff_getElem.1 hlinks⟩⟩

end

/-! ## The planner -/

/-- mirrors crates/chainweave-core/src/backfill.rs:40-45 -/
structure BackfillPlan where
  fullRange : BackfillRange
  requestRanges : List BackfillRange
  boundedWorkers : Nat

/-- Built by `RangePlanner::new` only, which keeps its checks.
mirrors crates/chainweave-core/src/backfill.rs:47-51 -/
structure RangePlanner where
  maxBlocksPerRequest : Nat
  boundedWorkers : Nat
  maxBlocksPerRequest_pos : 0 < maxBlocksPerRequest
  boundedWorkers_pos : 0 < boundedWorkers

namespace RangePlanner

/-- mirrors crates/chainweave-core/src/backfill.rs:54-68 -/
def new (maxBlocksPerRequest boundedWorkers : Nat) : Except BackfillError RangePlanner :=
  if hmax : maxBlocksPerRequest = 0 then .error .emptyRangeSpan
  else if hworkers : boundedWorkers = 0 then .error .emptyWorkerCount
  else .ok {
    maxBlocksPerRequest
    boundedWorkers
    maxBlocksPerRequest_pos := Nat.pos_of_ne_zero hmax
    boundedWorkers_pos := Nat.pos_of_ne_zero hworkers }

/-- The loop of `plan`. Every range moves `from_block` on, so the heights left bound its rounds.
mirrors crates/chainweave-core/src/backfill.rs:73-85 -/
def planFrom (toBlock maxBlocksPerRequest : Nat) : Nat → Nat → List BackfillRange
  | 0, _ => []
  | left + 1, fromBlock =>
    if toBlock < fromBlock then []
    else
      let last := min (satAdd fromBlock (maxBlocksPerRequest - 1)) toBlock
      ⟨fromBlock, last⟩ ::
        if last = u64Max then [] else planFrom toBlock maxBlocksPerRequest left (last + 1)

/-- mirrors crates/chainweave-core/src/backfill.rs:70-92 -/
def plan (self : RangePlanner) (fullRange : BackfillRange) : BackfillPlan where
  fullRange := fullRange
  requestRanges := planFrom fullRange.toBlock self.maxBlocksPerRequest
    (fullRange.toBlock + 1 - fullRange.fromBlock) fullRange.fromBlock
  boundedWorkers := self.boundedWorkers

/-- The loop as the machine runs it: `none` if it overflows, or has not ended after so many rounds.
mirrors crates/chainweave-core/src/backfill.rs:73-85 -/
def planChecked (toBlock maxBlocksPerRequest : Nat) : Nat → Nat → Option (List BackfillRange)
  | 0, _ => none
  | rounds + 1, fromBlock =>
    if toBlock < fromBlock then some []
    else do
      let last := min (satAdd fromBlock (← checkedSub maxBlocksPerRequest 1)) toBlock
      if last = u64Max then return [⟨fromBlock, last⟩]
      let ranges ← planChecked toBlock maxBlocksPerRequest rounds (← checkedAdd last 1)
      return ⟨fromBlock, last⟩ :: ranges

end RangePlanner

/-- The ranges cut the heights `fromBlock..=toBlock`: none is empty or has more than `size` heights,
they ascend without overlap, and each height is in one of them. -/
structure Partition (fromBlock toBlock size : Nat) (ranges : List BackfillRange) : Prop where
  nonempty : ∀ r ∈ ranges, r.fromBlock ≤ r.toBlock
  short : ∀ r ∈ ranges, r.toBlock - r.fromBlock < size
  ascending : ranges.Pairwise fun a b => a.toBlock < b.fromBlock
  covers : ∀ n, (∃ r ∈ ranges, r.fromBlock ≤ n ∧ n ≤ r.toBlock) ↔ fromBlock ≤ n ∧ n ≤ toBlock

section
variable {fromBlock toBlock last size : Nat} {ranges : List BackfillRange}

theorem partition_nil (h : toBlock < fromBlock) : Partition fromBlock toBlock size [] where
  nonempty := by simp
  short := by simp
  ascending := .nil
  covers n := by simp; omega

/-- One range more, below the others. -/
theorem Partition.cons (h : Partition (last + 1) toBlock size ranges) (hle : fromBlock ≤ last)
    (hlast : last ≤ toBlock) (hshort : last - fromBlock < size) :
    Partition fromBlock toBlock size (⟨fromBlock, last⟩ :: ranges) where
  nonempty := by simpa using ⟨hle, h.nonempty⟩
  short := by simpa using ⟨hshort, h.short⟩
  ascending := by
    refine List.pairwise_cons.2 ⟨fun r hr => ?_, h.ascending⟩
    have hfirst := (h.covers r.fromBlock).1 ⟨r, hr, Nat.le_refl _, h.nonempty r hr⟩
    exact hfirst.1
  covers n := by
    rw [List.exists_mem_cons_iff, h.covers]
    dsimp only
    omega

/-- A loop that cuts in this way makes a partition. -/
theorem planFrom_partition (hsize : 0 < size) (hto : toBlock ≤ u64Max) {left : Nat}
    (hleft : toBlock + 1 - fromBlock ≤ left) :
    Partition fromBlock toBlock size (RangePlanner.planFrom toBlock size left fromBlock) := by
  induction left generalizing fromBlock with
  | zero => exact partition_nil (by omega)
  | succ left ih =>
    unfold RangePlanner.planFrom
    by_cases hend : toBlock < fromBlock
    · rw [if_pos hend]
      exact partition_nil hend
    rw [if_neg hend]
    have hlast : min (satAdd fromBlock (size - 1)) toBlock ≤ toBlock := Nat.min_le_right _ _
    have hle : fromBlock ≤ min (satAdd fromBlock (size - 1)) toBlock := by
      unfold satAdd
      omega
    have hshort : min (satAdd fromBlock (size - 1)) toBlock - fromBlock < size := by
      unfold satAdd
      omega
    generalize min (satAdd fromBlock (size - 1)) toBlock = last at hlast hle hshort ⊢
    dsimp only
    -- The exit at `u64::MAX` is where `last + 1` would be past the end anyway.
    split
    · exact (partition_nil (by omega)).cons hle hlast hshort
    · exact (ih (by omega)).cons hle hlast hshort

/-- The loop ends within one round more than there are heights, without overflow. -/
theorem planChecked_eq (hsize : 0 < size) (hto : toBlock ≤ u64Max) {left : Nat}
    (hleft : toBlock + 1 - fromBlock ≤ left) :
    RangePlanner.planChecked toBlock size (left + 1) fromBlock =
      some (RangePlanner.planFrom toBlock size left fromBlock) := by
  induction left generalizing fromBlock with
  | zero =>
    unfold RangePlanner.planChecked
    rw [if_pos (by omega)]
    rfl
  | succ left ih =>
    unfold RangePlanner.planChecked RangePlanner.planFrom
    by_cases hend : toBlock < fromBlock
    · rw [if_pos hend, if_pos hend]
    rw [if_neg hend, if_neg hend, checkedSub_some hsize]
    have hle : fromBlock ≤ min (satAdd fromBlock (size - 1)) toBlock := by
      unfold satAdd
      omega
    have hlast : min (satAdd fromBlock (size - 1)) toBlock ≤ toBlock := Nat.min_le_right _ _
    simp only [Option.bind_eq_bind, Option.bind_some]
    generalize min (satAdd fromBlock (size - 1)) toBlock = last at hle hlast ⊢
    by_cases hmax : last = u64Max
    · simp [hmax]
    · have hrest := @ih (last + 1) (by omega)
      rw [if_neg hmax, if_neg hmax, checkedAdd_some (by omega)]
      simp [hrest]

end

end Chainweave.Backfill
