import Chainweave.Cli.LiveSource

/-!
# The budget of each live window

What `WindowedLiveBudget` admits over any sequence of calls.

* `Counts`: the budget against the window it counts. The count saturates at
  `u64::MAX`, so a cap that high never refuses a call.
* `recordAt_spec`: one call, from any budget that counts a window.
* `keepsWindows_iff`: the limit holds in every window and every refusal is over
  after the delay it gave, exactly when the calls are affordable. `new` takes a
  cap below the cost of a method, and then that method is refused forever.
-/
namespace Chainweave.Runtime

open Stateful Chainweave.Backfill Chainweave.Live

/-! ## Windows -/

/-- A window: when it started, and what was admitted in it. -/
structure Window where
  start : Nat
  spent : Nat

/-- The window a call at `now` falls into. -/
def Window.goTo (w : Window) (length : Duration) (now : Nat) : Window :=
  if length ≤ now - w.start then ⟨now, 0⟩ else w

/-- The budget counts the window, up to `u64::MAX`. -/
structure Counts (cap : Nat) (length : Duration) (w : Window) (b : WindowedLiveBudget) : Prop where
  maxCostUnits : b.maxCostUnits = cap
  window : b.window = length
  startedAt : b.startedAt = w.start
  maxRequests : b.budget.maxRequests = u64Max
  budgetCap : b.budget.maxCostUnits = cap
  costUnits : b.budget.costUnits = min w.spent u64Max

/-- The window has room for a call. -/
def Admits (cap : Nat) (w : Window) (method : RpcMethod) : Prop :=
  min (w.spent + method.defaultCost) u64Max ≤ cap

theorem defaultCost_lt (method : RpcMethod) : method.defaultCost < u64Max := by
  cases method <;> decide

section
variable {cap : Nat} {length : Duration} {w : Window} {self : WindowedLiveBudget} {method : RpcMethod}
  {now now₀ : Nat}

theorem counts_new (h : WindowedLiveBudget.new cap length now₀ = .ok self) :
    Counts cap length ⟨now₀, 0⟩ self := by
  unfold WindowedLiveBudget.new at h
  split at h
  · cases h
  obtain ⟨budget, hbudget, h⟩ := ok_bind.1 h
  cases h
  rw [mapError_ok] at hbudget
  obtain ⟨hmaxRequests, hbudgetCap, -, hcost⟩ := RpcBudget.new_ok hbudget
  exact ⟨rfl, rfl, rfl, hmaxRequests, hbudgetCap, hcost⟩

theorem Counts.cap_pos (h : Counts cap length w self) : 0 < cap := by
  have := self.budget.maxCostUnits_pos
  rw [h.budgetCap] at this
  exact this

theorem Counts.length_pos (h : Counts cap length w self) : 0 < length := by
  have := self.window_pos
  rw [h.window] at this
  exact this

/-- A new window can always be started: the cap was checked by `new`. -/
theorem reset_spec (h : Counts cap length w self) :
    wp (WindowedLiveBudget.reset now) (fun _ self' => Counts cap length ⟨now, 0⟩ self')
      (fun _ _ => False) self := by
  have hcap := h.cap_pos
  have hnew : RpcBudget.new u64Max self.maxCostUnits = .ok
      ⟨u64Max, cap, 0, 0, by decide, hcap, Nat.zero_le _, Nat.zero_le _⟩ := by
    unfold RpcBudget.new
    rw [dif_neg (by decide), dif_neg (by rw [h.maxCostUnits]; omega)]
    simp only [h.maxCostUnits]
  unfold WindowedLiveBudget.reset
  rw [wp_bind, wp_modify, wp_bind, wp_get, wp_bind, wp_lift, hnew]
  refine ⟨fun budget hbudget => ?_, fun e he => by cases he⟩
  cases hbudget
  exact ⟨h.maxCostUnits, h.window, rfl, rfl, rfl, rfl⟩

/-- The inner budget admits what the window has room for. -/
theorem record_spec (h : Counts cap length w self) :
    (Admits cap w method ∧ ∃ budget, self.budget.record method method.defaultCost = .ok budget ∧
      Counts cap length ⟨w.start, w.spent + method.defaultCost⟩ { self with budget }) ∨
    ¬ Admits cap w method ∧ ∃ e, self.budget.record method method.defaultCost = .error e := by
  have hrequests : satAdd self.budget.requests 1 ≤ self.budget.maxRequests := by
    rw [h.maxRequests]
    exact Nat.min_le_right _ _
  have hcost : satAdd self.budget.costUnits (max method.defaultCost method.defaultCost) =
      min (w.spent + method.defaultCost) u64Max := by
    rw [h.costUnits, Nat.max_self]
    unfold satAdd
    omega
  unfold Admits
  cases hrecord : self.budget.record method method.defaultCost with
  | ok next =>
    obtain ⟨hmaxRequests', hcap', -, hcost'⟩ := RpcBudget.record_ok hrecord
    have hroom := next.costUnits_le
    rw [hcost', hcost, hcap', h.budgetCap] at hroom
    exact .inl ⟨hroom, next, rfl, h.maxCostUnits, h.window, h.startedAt,
      hmaxRequests'.trans h.maxRequests, hcap'.trans h.budgetCap, hcost'.trans hcost⟩
  | error e =>
    have hover := RpcBudget.record_error hrecord
    rw [hcost, h.budgetCap] at hover
    exact .inr ⟨by omega, e, rfl⟩

/-- What a call leaves, and what it says. -/
inductive CallOf (cap : Nat) (length : Duration) (w : Window) (method : RpcMethod) (now : Nat) :
    Option Duration → WindowedLiveBudget → Prop
  | admitted {self : WindowedLiveBudget} (hadmits : Admits cap w method)
      (hcounts : Counts cap length ⟨w.start, w.spent + method.defaultCost⟩ self) :
      CallOf cap length w method now none self
  | refused {self : WindowedLiveBudget} (hfull : ¬ Admits cap w method)
      (hcounts : Counts cap length w self) :
      CallOf cap length w method now (some (length - (now - w.start))) self

/-- **One call of `record_at`**: in its window, it is admitted and counted or refused. -/
theorem recordAt_spec (h : Counts cap length w self) :
    wp (WindowedLiveBudget.recordAt method now) (CallOf cap length (w.goTo length now) method now)
      (fun _ _ => False) self := by
  unfold WindowedLiveBudget.recordAt
  rw [wp_bind, wp_get, h.window, h.startedAt]
  refine wp_first (I := Counts cap length (w.goTo length now)) (fun hover => ?_) (fun hin => ?_)
    fun self h => ?_
  · unfold Window.goTo
    rw [if_pos hover]
    exact reset_spec h
  · unfold Window.goTo
    rw [if_neg hin]
    exact h
  · rw [wp_bind, wp_get]
    obtain ⟨hadmits, budget, hrecord, hcounts⟩ | ⟨hfull, e, hrecord⟩ :=
      @record_spec _ _ _ _ method h
    · rw [hrecord]
      exact .admitted hadmits hcounts
    · rw [hrecord]
      show CallOf cap length _ method now (some (self.window - (now - self.startedAt))) self
      rw [h.window, h.startedAt]
      exact .refused hfull h

end

/-! ## Sequences of calls -/

/-- One call of `record_at`, with the budget before and after it. -/
structure Recorded where
  before : WindowedLiveBudget
  method : RpcMethod
  now : Nat
  outcome : Except LiveRuntimeError (Option Duration)
  after : WindowedLiveBudget

/-- Calls one after the other. -/
def recordCalls (self : WindowedLiveBudget) : List (RpcMethod × Nat) → List Recorded
  | [] => []
  | (method, now) :: calls =>
    let r := exec (WindowedLiveBudget.recordAt method now) self
    ⟨self, method, now, r.1, r.2⟩ :: recordCalls r.2 calls

def Recorded.admitted (call : Recorded) : Bool :=
  match call.outcome with
  | .ok none => true
  | _ => false

/-- The cost admitted in the window that started at `start`. -/
def admittedCost (start : Nat) (recorded : List Recorded) : Nat :=
  ((recorded.filter fun call => call.after.startedAt = start ∧ call.admitted).map
    (·.method.defaultCost)).sum

/-- Each call with the start of the window it falls into. -/
def windowed (length : Duration) (start : Nat) : List (RpcMethod × Nat) → List (Nat × RpcMethod)
  | [] => []
  | (method, now) :: calls =>
    let start := if length ≤ now - start then now else start
    (start, method) :: windowed length start calls

/-- The cost of the calls of one window. -/
def windowCost (start : Nat) (calls : List (Nat × RpcMethod)) : Nat :=
  ((calls.filter (·.1 = start)).map (·.2.defaultCost)).sum

/-- The limit holds in every window, and a refused call only has to wait for the delay it was given:
`record_or_backoff`, when it is called at that time, sleeps at most once. -/
structure KeepsWindows {σ : Type} (client : RpcLiveClient σ) (cap : Nat) (recorded : List Recorded) :
    Prop where
  limit : ∀ start, admittedCost start recorded ≤ cap
  answers : ∀ call ∈ recorded, ∃ delay, call.outcome = .ok delay
  resumes : ∀ call ∈ recorded, ∀ delay, call.outcome = .ok (some delay) → 0 < delay ∧
    (exec (WindowedLiveBudget.recordAt call.method (call.now + delay)) call.after).1 = .ok none
  returns : ∀ call ∈ recorded, ∀ node, client.clock.now node = call.now →
    (exec (client.recordOrBackoff call.method 2) ⟨call.before, node⟩).1 = .ok ()

/-- No call costs more than the cap, and a cap at which the count saturates is not reached. -/
structure Affordable (cap : Nat) (length : Duration) (now₀ : Nat) (calls : List (RpcMethod × Nat)) :
    Prop where
  each : ∀ call ∈ calls, call.1.defaultCost ≤ cap
  window : u64Max ≤ cap → ∀ start, windowCost start (windowed length now₀ calls) ≤ cap

section
variable {cap : Nat} {length : Duration} {w : Window} {self : WindowedLiveBudget}
  {calls : List (RpcMethod × Nat)} {method : RpcMethod} {now now' start : Nat} {call : Recorded}

theorem admittedCost_cons {recorded : List Recorded} : admittedCost start (call :: recorded) =
    (if call.after.startedAt = start ∧ call.admitted then call.method.defaultCost else 0) +
      admittedCost start recorded := by
  unfold admittedCost
  rw [List.filter_cons]
  by_cases h : call.after.startedAt = start ∧ call.admitted = true
  · rw [if_pos (by simpa using h), if_pos h, List.map_cons, List.sum_cons]
  · rw [if_neg (by simpa using h), if_neg h, Nat.zero_add]

theorem windowCost_cons {pair : Nat × RpcMethod} {pairs : List (Nat × RpcMethod)} :
    windowCost start (pair :: pairs) =
      (if pair.1 = start then pair.2.defaultCost else 0) + windowCost start pairs := by
  unfold windowCost
  rw [List.filter_cons]
  by_cases h : pair.1 = start
  · rw [if_pos (by simpa using h), if_pos h, List.map_cons, List.sum_cons]
  · rw [if_neg (by simpa using h), if_neg h, Nat.zero_add]

/-- The first call of a sequence. -/
theorem recordCalls_cons (h : Counts cap length w self) : ∃ delay self',
    CallOf cap length (w.goTo length now) method now delay self' ∧
      exec (WindowedLiveBudget.recordAt method now) self = (.ok delay, self') ∧
      recordCalls self ((method, now) :: calls) =
        ⟨self, method, now, .ok delay, self'⟩ :: recordCalls self' calls := by
  obtain ⟨delay, self', hx, hcall⟩ := wp_returns (recordAt_spec h)
  refine ⟨delay, self', hcall, hx, ?_⟩
  rw [recordCalls, hx]

/-- A budget that counts the window left by a call. -/
theorem CallOf.counts {delay : Option Duration} (h : CallOf cap length w method now delay self) :
    ∃ spent, w.spent ≤ spent ∧ Counts cap length ⟨w.start, spent⟩ self := by
  cases h with
  | admitted _ hcounts => exact ⟨_, Nat.le_add_right _ _, hcounts⟩
  | refused _ hcounts => exact ⟨w.spent, Nat.le_refl _, hcounts⟩

theorem Window.start_goTo_le (hstart : w.start ≤ now) : (w.goTo length now).start ≤ now := by
  unfold goTo
  split
  · exact Nat.le_refl _
  · exact hstart

/-- Windows only go forward, and the count of a window starts at zero. -/
theorem Window.goTo_cases (hlength : 0 < length) :
    w.goTo length now = w ∨ w.start < (w.goTo length now).start ∧ (w.goTo length now).spent = 0 := by
  unfold goTo
  by_cases h : length ≤ now - w.start
  · rw [if_pos h]
    refine .inr ⟨?_, rfl⟩
    show w.start < now
    exact Nat.lt_of_sub_pos (Nat.lt_of_lt_of_le hlength h)
  · rw [if_neg h]
    exact .inl rfl

/-- Every recorded call was made with a budget that counts some window, before its time. -/
theorem mem_recordCalls (h : Counts cap length w self)
    (hsorted : (w.start :: calls.map (·.2)).Pairwise (· ≤ ·)) (hmem : call ∈ recordCalls self calls) :
    ∃ w, Counts cap length w call.before ∧ w.start ≤ call.now ∧ (call.method, call.now) ∈ calls ∧
      exec (WindowedLiveBudget.recordAt call.method call.now) call.before =
        (call.outcome, call.after) := by
  induction calls generalizing self w with
  | nil => cases hmem
  | cons next calls ih =>
    obtain ⟨method, now⟩ := next
    obtain ⟨delay, self', hcall, hx, hrecorded⟩ := @recordCalls_cons _ _ _ _ calls method now h
    rw [List.map_cons, List.pairwise_cons, List.pairwise_cons] at hsorted
    obtain ⟨hfirst, hnow, hrest⟩ := hsorted
    have hstart : w.start ≤ now := hfirst now (by simp)
    rw [hrecorded] at hmem
    cases List.mem_cons.1 hmem with
    | inl heq =>
      subst heq
      exact ⟨w, h, hstart, by simp, hx⟩
    | inr hmem =>
      obtain ⟨spent, -, hcounts⟩ := hcall.counts
      have hgo := @Window.start_goTo_le length w now hstart
      obtain ⟨w', hbefore, hle, hin, hexec⟩ := ih hcounts
        (List.pairwise_cons.2 ⟨fun t ht => Nat.le_trans hgo (hnow t ht), hrest⟩) hmem
      exact ⟨w', hbefore, hle, List.mem_cons_of_mem _ hin, hexec⟩

/-- Every call is recorded. -/
theorem recordCalls_mem (h : Counts cap length w self) (hmem : (method, now) ∈ calls) :
    ∃ call ∈ recordCalls self calls, call.method = method ∧ call.now = now := by
  induction calls generalizing self w with
  | nil => cases hmem
  | cons next calls ih =>
    obtain ⟨method', now'⟩ := next
    obtain ⟨delay, self', hcall, hx, hrecorded⟩ := @recordCalls_cons _ _ _ _ calls method' now' h
    rw [hrecorded]
    cases List.mem_cons.1 hmem with
    | inl heq =>
      cases heq
      exact ⟨_, List.mem_cons_self, rfl, rfl⟩
    | inr hmem =>
      obtain ⟨spent, -, hcounts⟩ := hcall.counts
      obtain ⟨call, hin, hmethod⟩ := ih hcounts hmem
      exact ⟨call, List.mem_cons_of_mem _ hin, hmethod⟩

/-! ## The limit -/

/-- No later call falls into an earlier window. -/
theorem admittedCost_past (h : Counts cap length w self) (hpast : start < w.start) :
    admittedCost start (recordCalls self calls) = 0 := by
  induction calls generalizing self w with
  | nil => rfl
  | cons next calls ih =>
    obtain ⟨method, now⟩ := next
    obtain ⟨delay, self', hcall, -, hrecorded⟩ := @recordCalls_cons _ _ _ _ calls method now h
    obtain ⟨spent, -, hcounts⟩ := hcall.counts
    have hlater : start < (w.goTo length now).start := by
      obtain hsame | ⟨hnext, -⟩ := @Window.goTo_cases length w now h.length_pos
      · rwa [hsame]
      · omega
    rw [hrecorded, admittedCost_cons, ih hcounts hlater, if_neg]
    rw [not_and_or]
    left
    show self'.startedAt ≠ start
    rw [hcounts.startedAt]
    exact Nat.ne_of_gt hlater

/-- What is admitted in the window that is counted, and in any later one, stays within the cap as
long as the count does not saturate. -/
theorem admittedCost_le (h : Counts cap length w self) (hspent : w.spent ≤ cap)
    (hcap : cap < u64Max) :
    (if w.start = start then w.spent else 0) + admittedCost start (recordCalls self calls) ≤ cap := by
  induction calls generalizing self w with
  | nil =>
    show (if w.start = start then w.spent else 0) + 0 ≤ cap
    split <;> omega
  | cons next calls ih =>
    obtain ⟨method, now⟩ := next
    obtain ⟨delay, self', hcall, -, hrecorded⟩ := @recordCalls_cons _ _ _ _ calls method now h
    have hwindow := @Window.goTo_cases length w now h.length_pos
    have hspent' : (w.goTo length now).spent ≤ cap := by
      obtain hsame | ⟨-, hzero⟩ := hwindow
      · rwa [hsame]
      · omega
    -- The window of the call, with what was admitted in it by then.
    have hgo : (if (w.goTo length now).start = start then (w.goTo length now).spent else 0) +
        admittedCost start (recordCalls self ((method, now) :: calls)) ≤ cap := by
      rw [hrecorded, admittedCost_cons]
      cases hcall with
      | admitted hadmits hcounts =>
        have hroom : (w.goTo length now).spent + method.defaultCost ≤ cap := by
          unfold Admits at hadmits
          omega
        have hrest := ih hcounts hroom
        simp only [Recorded.admitted, hcounts.startedAt, and_true]
        dsimp only at hrest
        split at hrest <;> rename_i heq <;> simp only [heq, if_true, if_false] <;> omega
      | refused hfull hcounts =>
        have hrest := ih hcounts hspent'
        simp only [Recorded.admitted, Bool.false_eq_true, and_false, if_false]
        omega
    obtain hsame | ⟨hnext, -⟩ := hwindow
    · rwa [hsame] at hgo
    · by_cases hstart : w.start = start
      · -- The counted window is over: nothing more falls into it.
        obtain ⟨spent, -, hcounts⟩ := hcall.counts
        rw [if_pos hstart, hrecorded, admittedCost_cons,
          admittedCost_past hcounts (hstart ▸ hnext), if_neg]
        · omega
        · rw [not_and_or]
          left
          show self'.startedAt ≠ start
          rw [hcounts.startedAt, ← hstart]
          exact Nat.ne_of_gt hnext
      · rw [if_neg hstart]
        omega

/-- A count that saturates below the cap admits every call. -/
theorem admittedCost_eq (h : Counts cap length w self) (hcap : u64Max ≤ cap) :
    admittedCost start (recordCalls self calls) = windowCost start (windowed length w.start calls) := by
  induction calls generalizing self w with
  | nil => rfl
  | cons next calls ih =>
    obtain ⟨method, now⟩ := next
    obtain ⟨delay, self', hcall, -, hrecorded⟩ := @recordCalls_cons _ _ _ _ calls method now h
    have hstart : (w.goTo length now).start = if length ≤ now - w.start then now else w.start := by
      unfold Window.goTo
      split <;> rfl
    rw [hrecorded, admittedCost_cons, windowed, windowCost_cons]
    cases hcall with
    | admitted hadmits hcounts =>
      rw [ih hcounts]
      simp only [Recorded.admitted, hcounts.startedAt, and_true, hstart]
    | refused hfull hcounts =>
      refine absurd ?_ hfull
      unfold Admits
      omega

/-! ## Refusals -/

/-- Once the window is over, a call that fits an empty window is admitted. -/
theorem recordAt_over (h : Counts cap length w self) (hover : length ≤ now - w.start)
    (hcost : method.defaultCost ≤ cap) :
    (exec (WindowedLiveBudget.recordAt method now) self).1 = .ok none := by
  obtain ⟨delay, self', hx, hcall⟩ := wp_returns (@recordAt_spec _ _ _ _ method now h)
  have hgo : w.goTo length now = ⟨now, 0⟩ := if_pos hover
  rw [hgo] at hcall
  rw [hx]
  cases hcall with
  | admitted => rfl
  | refused hfull _ =>
    refine absurd ?_ hfull
    unfold Admits
    dsimp only
    omega

/-- A call that costs more than the cap is never admitted. -/
theorem recordAt_never (h : Counts cap length w self) (hcost : cap < method.defaultCost) :
    ∃ delay self', exec (WindowedLiveBudget.recordAt method now) self = (.ok (some delay), self') ∧
      Counts cap length (w.goTo length now) self' := by
  obtain ⟨delay, self', hx, hcall⟩ := wp_returns (@recordAt_spec _ _ _ _ method now h)
  cases hcall with
  | admitted hadmits _ =>
    unfold Admits at hadmits
    have := defaultCost_lt method
    omega
  | refused _ hcounts => exact ⟨_, self', hx, hcounts⟩

/-- A refusal gives the rest of its window, which is not empty. -/
theorem recordAt_refused {delay : Duration} {self' : WindowedLiveBudget}
    (h : Counts cap length w self) (hstart : w.start ≤ now)
    (hx : exec (WindowedLiveBudget.recordAt method now) self = (.ok (some delay), self')) :
    0 < delay ∧ ∃ w', Counts cap length w' self' ∧ w'.start ≤ now ∧
      delay = length - (now - w'.start) := by
  have hcall := wp_ok (@recordAt_spec _ _ _ _ method now h) hx
  cases hcall with
  | refused _ hcounts =>
    refine ⟨?_, _, hcounts, Window.start_goTo_le hstart, rfl⟩
    have hlength : (0 : Nat) < length := h.length_pos
    unfold Window.goTo
    split
    · show 0 < length - (now - now)
      rw [Nat.sub_self]
      exact hlength
    · rename_i hin
      exact Nat.sub_pos_of_lt (Nat.lt_of_not_le hin)

end

/-! ## Backing off -/

section
variable {σ : Type} {client : RpcLiveClient σ} {cap : Nat} {length : Duration} {w : Window}
  {b b' : WindowedLiveBudget} {method : RpcMethod} {rounds : Nat} {node : σ} {delay : Duration}

theorem recordOrBackoff_admitted (hx : (exec (WindowedLiveBudget.recordAt method
    (client.clock.now node)) b).1 = .ok none) :
    (exec (client.recordOrBackoff method (rounds + 1)) ⟨b, node⟩).1 = .ok () := by
  rw [RpcLiveClient.recordOrBackoff, exec_bind, exec_get]
  dsimp only
  rw [exec_bind, exec_mapError, exec_zoom, hx]
  rfl

theorem recordOrBackoff_refused (hx : exec (WindowedLiveBudget.recordAt method
    (client.clock.now node)) b = (.ok (some delay), b')) :
    exec (client.recordOrBackoff method (rounds + 1)) ⟨b, node⟩ =
      exec (client.recordOrBackoff method rounds) ⟨b', client.clock.sleep delay node⟩ := by
  rw [RpcLiveClient.recordOrBackoff, exec_bind, exec_get]
  dsimp only
  rw [exec_bind, exec_mapError, exec_zoom, hx]
  rfl

/-- A call that fits an empty window sleeps at most once. -/
theorem recordOrBackoff_two (h : Counts cap length w b) (hstart : w.start ≤ client.clock.now node)
    (hcost : method.defaultCost ≤ cap) :
    (exec (client.recordOrBackoff method 2) ⟨b, node⟩).1 = .ok () := by
  obtain ⟨delay, b', hx, -⟩ := wp_returns (@recordAt_spec _ _ _ _ method (client.clock.now node) h)
  cases delay with
  | none => exact recordOrBackoff_admitted (by rw [hx])
  | some delay =>
    obtain ⟨-, w', hcounts, hle, rfl⟩ := recordAt_refused h hstart hx
    rw [recordOrBackoff_refused hx]
    refine recordOrBackoff_admitted (recordAt_over hcounts ?_ hcost)
    have hslept := client.clock.sleep_le (length - (client.clock.now node - w'.start)) node
    exact Nat.le_sub_of_add_le (by omega)

/-- A call that costs more than the cap backs off forever. -/
theorem recordOrBackoff_never (h : Counts cap length w b) (hcost : cap < method.defaultCost) :
    (exec (client.recordOrBackoff method rounds) ⟨b, node⟩).1 = .error .asleep := by
  induction rounds generalizing b w node with
  | zero => rfl
  | succ rounds ih =>
    obtain ⟨delay, b', hx, hcounts⟩ := @recordAt_never _ _ _ _ _ (client.clock.now node) h hcost
    rw [recordOrBackoff_refused hx]
    exact ih hcounts

/-- **Exactly when the live budget keeps its windows**, for every cap and window that `new` accepts
and calls at times that do not go back. -/
theorem keepsWindows_iff {now₀ : Nat} (hnew : WindowedLiveBudget.new cap length now₀ = .ok b)
    (client : RpcLiveClient σ) (calls : List (RpcMethod × Nat))
    (hsorted : (now₀ :: calls.map (·.2)).Pairwise (· ≤ ·)) :
    KeepsWindows client cap (recordCalls b calls) ↔ Affordable cap length now₀ calls := by
  have h := counts_new hnew
  constructor
  · intro hkeeps
    refine ⟨fun next hnext => ?_, fun hcap start => ?_⟩
    · -- A refusal that is not over after its delay.
      obtain ⟨call, hmem, hmethod, hnow⟩ := recordCalls_mem h hnext
      obtain ⟨w, hbefore, -, -, hx⟩ := mem_recordCalls h hsorted hmem
      by_contra hcost
      have hcost : cap < call.method.defaultCost := by rw [hmethod]; omega
      obtain ⟨delay, after, hx', hcounts⟩ := @recordAt_never _ _ _ _ _ call.now hbefore hcost
      rw [hx] at hx'
      obtain ⟨hout, rfl⟩ := Prod.mk.inj hx'
      obtain ⟨-, hagain⟩ := hkeeps.resumes call hmem delay hout
      obtain ⟨delay', after', hx'', -⟩ :=
        @recordAt_never _ _ _ _ _ (call.now + delay) hcounts hcost
      rw [hx''] at hagain
      cases hagain
    · rw [← admittedCost_eq h hcap]
      exact hkeeps.limit start
  · intro hafford
    refine ⟨fun start => ?_, fun call hmem => ?_, fun call hmem delay hout => ?_,
      fun call hmem node hnow => ?_⟩
    · by_cases hcap : cap < u64Max
      · have := @admittedCost_le _ _ _ _ calls start h (Nat.zero_le _) hcap
        omega
      · rw [admittedCost_eq h (by omega)]
        exact hafford.window (by omega) start
    · obtain ⟨w, hbefore, -, -, hx⟩ := mem_recordCalls h hsorted hmem
      obtain ⟨delay, after, hx', -⟩ := wp_returns (@recordAt_spec _ _ _ _ call.method call.now hbefore)
      rw [hx] at hx'
      exact ⟨delay, (Prod.mk.inj hx').1⟩
    · obtain ⟨w, hbefore, hstart, hin, hx⟩ := mem_recordCalls h hsorted hmem
      rw [hout] at hx
      obtain ⟨hpos, w', hcounts, hle, rfl⟩ := recordAt_refused hbefore hstart hx
      refine ⟨hpos, recordAt_over hcounts ?_ (hafford.each _ hin)⟩
      exact Nat.le_sub_of_add_le (by omega)
    · obtain ⟨w, hbefore, hstart, hin, -⟩ := mem_recordCalls h hsorted hmem
      exact recordOrBackoff_two hbefore (hnow ▸ hstart) (hafford.each _ hin)

end

/-- A node that only waits: its state is the time. -/
def idleClient : RpcLiveClient Nat where
  client := {
    getLogs := fun _ _ => pure []
    getBlocks := fun _ => pure []
    getBlockByNumber := fun _ => pure none
    getBlockByHash := fun _ => pure none
    getLogsByBlockHash := fun _ _ => pure [] }
  config := {
    retryPolicy := ⟨1, 1, 8, 0, by decide, by decide, by decide⟩
    filter := none
    abiRegistry := none }
  clock := {
    now := id
    sleep := fun delay now => now + delay
    sleep_le := fun _ _ => Nat.le_refl _ }
  rounds := 0

/-- `keepsWindows_iff` for one call that is admitted and one that has to wait. -/
theorem keepsWindows_iff_wait :
    ∃ b, WindowedLiveBudget.new 5 60 0 = .ok b ∧
      let recorded := recordCalls b [(.getLogs, 0), (.getBlockByNumber, 20)]
      recorded.map (·.outcome.toOption) = [some none, some (some 40)] ∧
        KeepsWindows idleClient 5 recorded := by
  have hnew : WindowedLiveBudget.new 5 60 0 = .ok ⟨5, 60, 0, ⟨u64Max, 5, 0, 0, by decide, by decide,
      by decide, by decide⟩, by decide⟩ := rfl
  refine ⟨_, hnew, by decide +kernel, ?_⟩
  refine (keepsWindows_iff hnew idleClient _ (by decide)).2 ⟨by decide, fun hcap => ?_⟩
  exact absurd hcap (by decide)

/-- A cap of one never admits `eth_getLogs`: the source sleeps for ever, and no error is raised. -/
theorem sleeps_forever :
    ∃ b, WindowedLiveBudget.new 1 60 0 = .ok b ∧
      (∀ rounds, (exec (idleClient.recordOrBackoff .getLogs rounds) ⟨b, 0⟩).1 = .error .asleep) ∧
        ¬ KeepsWindows idleClient 1 (recordCalls b [(.getLogs, 0)]) := by
  have hnew : WindowedLiveBudget.new 1 60 0 = .ok ⟨1, 60, 0, ⟨u64Max, 1, 0, 0, by decide, by decide,
      by decide, by decide⟩, by decide⟩ := rfl
  refine ⟨_, hnew, fun rounds => recordOrBackoff_never (counts_new hnew) (by decide), fun h => ?_⟩
  have hagain := (h.resumes _ List.mem_cons_self 60 rfl).2
  exact absurd hagain (by decide +kernel)

end Chainweave.Runtime
