import Chainweave.Cli.Reconnect
import Chainweave.Lib.Since

/-!
# Histories of the reconnect loop

Sequences of operations on a `ReconnectLoop`, with what each answered.

* `LoopOp`, `step`: the nine operations. `play`, `history`: a sequence of them.
* `Tells`: what the loop's fields say of its history. `tells_step` is one operation,
  `tells_play` any sequence.
* `reconnect_safe`: the guarantees about runs of any length.
-/
namespace Chainweave.Runtime

open History Chainweave.Backfill Chainweave.Live

/-! ## Operations -/

/-- An operation; `record_disconnect` and `record_catch_up_complete` are those at `Instant::now()`. -/
inductive LoopOp where
  | disconnect (now : Instant)
  | connectedNeedsReconciliation
  | catchUpComplete (now : Instant)
  | subscribedForWakeups
  | reconciledToHead
  | readyAfterReconnect (now : Instant)
  | availabilityFailure
  | correctnessError
  | taskError (error : LiveTaskError)

/-- What an operation answers. -/
inductive LoopAnswer where
  | done
  | refused (error : LiveRuntimeError)
  | action (action : ReconnectAction)

namespace ReconnectLoop

/-- An operation that may be refused, and then changes nothing. -/
def answered (self : ReconnectLoop) :
    Except LiveRuntimeError ReconnectLoop → LoopAnswer × ReconnectLoop
  | .ok next => (.done, next)
  | .error error => (.refused error, self)

/-- One operation. -/
def step (self : ReconnectLoop) : LoopOp → LoopAnswer × ReconnectLoop
  | .disconnect now => (.done, self.recordDisconnectAt now)
  | .connectedNeedsReconciliation => (.done, self.recordConnectedNeedsReconciliation)
  | .catchUpComplete now => (.done, self.recordCatchUpCompleteAt now)
  | .subscribedForWakeups => (.done, self.recordSubscribedForWakeups)
  | .reconciledToHead => self.answered self.recordReconciledToHead
  | .readyAfterReconnect now => self.answered (self.recordReadyAfterReconnectAt now)
  | .availabilityFailure => (.action self.recordAvailabilityFailure.1, self.recordAvailabilityFailure.2)
  | .correctnessError => (.action self.recordCorrectnessError.1, self.recordCorrectnessError.2)
  | .taskError error => (.action (self.recordTaskError error).1, (self.recordTaskError error).2)

/-- Operations one after the other. -/
def play (self : ReconnectLoop) (ops : List LoopOp) : ReconnectLoop :=
  ops.foldl (fun self op => (self.step op).2) self

/-- An operation, and what it answered. -/
structure Event where
  op : LoopOp
  answer : LoopAnswer

/-- The operations with their answers. -/
def history (self : ReconnectLoop) : List LoopOp → List Event
  | [] => []
  | op :: ops => ⟨op, (self.step op).1⟩ :: history (self.step op).2 ops

end ReconnectLoop

/-! ## Kinds of events -/

/-- A correctness error, on its own or of a task. -/
def LoopOp.IsCorrectness : LoopOp → Prop
  | .correctnessError => True
  | .taskError error => error.classify = .correctness
  | _ => False

/-- A failure that is retried: of availability, or of a task. -/
def LoopOp.IsAvailability : LoopOp → Prop
  | .availabilityFailure => True
  | .taskError error => error.classify = .transient
  | _ => False

namespace ReconnectLoop.Event

/-- A disconnect, a new connection, a failure, or a ready mark that was taken. -/
def Resets (event : Event) : Prop :=
  match event.op with
  | .disconnect _ | .connectedNeedsReconciliation | .availabilityFailure | .correctnessError
  | .taskError _ => True
  | .readyAfterReconnect _ => event.answer = .done
  | _ => False

def Subscribes (event : Event) : Prop := event.op = .subscribedForWakeups

def Reconciles (event : Event) : Prop := event.op = .reconciledToHead ∧ event.answer = .done

/-- The loop was marked ready at `since`. -/
def Marks (since : Instant) (event : Event) : Prop :=
  (event.op = .catchUpComplete since ∨ event.op = .readyAfterReconnect since) ∧ event.answer = .done

/-- What takes the time of the mark back. -/
def Clears (event : Event) : Prop :=
  match event.op with
  | .disconnect _ | .connectedNeedsReconciliation | .subscribedForWakeups | .availabilityFailure
  | .correctnessError | .taskError _ => True
  | _ => False

end ReconnectLoop.Event

open ReconnectLoop (Event)

/-- A subscribe was recorded after everything that resets. -/
def Subscribed (events : List Event) : Prop :=
  Since (fun _ event => event.Subscribes) (fun event => ¬ event.Resets) events

/-- A reconcile was recorded after the latest such subscribe. -/
def Reconnected (events : List Event) : Prop :=
  Since (fun before event => event.Reconciles ∧ Subscribed before)
    (fun event => ¬ event.Resets ∧ ¬ event.Subscribes) events

/-- A ready mark that no operation has cleared. -/
def Marked (since : Instant) (events : List Event) : Prop :=
  Since (fun _ event => event.Marks since) (fun event => ¬ event.Clears) events

/-! ## What the fields say -/

section
variable {policy : ReconnectPolicy} {self : ReconnectLoop} {events : List Event} {op : LoopOp}
  {ops : List LoopOp}

theorem ReconnectLoop.play_append :
    self.play (ops ++ [op]) = ((self.play ops).step op).2 := by
  unfold play
  rw [List.foldl_append]
  rfl

theorem ReconnectLoop.history_append :
    self.history (ops ++ [op]) = self.history ops ++ [⟨op, ((self.play ops).step op).1⟩] := by
  induction ops generalizing self with
  | nil => rfl
  | cons first ops ih =>
    show _ :: ((self.step first).2.history (ops ++ [op])) = _
    rw [ih]
    rfl

/-- A loop that has halted says nothing else any more. -/
structure Halted (loop : ReconnectLoop) : Prop where
  halted : loop.halted = true
  readiness : loop.readiness = .unavailable
  healthySince : loop.healthySince = none

/-- The fields, by the history. -/
structure Tells (policy : ReconnectPolicy) (events : List Event) (loop : ReconnectLoop) : Prop where
  policy : loop.policy = policy
  /-- a reconciled loop is subscribed -/
  order : loop.reconciledAfterSubscribe = true → loop.subscribedToWakeups = true
  subscribed : loop.halted = false → (loop.subscribedToWakeups = true ↔ Subscribed events)
  reconciled : loop.halted = false → (loop.reconciledAfterSubscribe = true ↔ Reconnected events)
  marked : ∀ since, loop.healthySince = some since → Marked since events
  halted : loop.halted = true → Halted loop
  correctness : (∃ event ∈ events, event.op.IsCorrectness) → loop.halted = true

theorem tells_new : Tells policy [] (.new policy) where
  policy := rfl
  order h := by cases h
  subscribed _ := by simp [ReconnectLoop.new, Subscribed]
  reconciled _ := by simp [ReconnectLoop.new, Reconnected]
  marked since h := by cases h
  halted h := by cases h
  correctness h := by
    obtain ⟨event, hmem, -⟩ := h
    cases hmem

/-- Of a loop that has halted, any history may be told. -/
theorem Halted.tells {loop : ReconnectLoop} (h : Halted loop) (hpolicy : loop.policy = policy)
    (horder : loop.reconciledAfterSubscribe = true → loop.subscribedToWakeups = true) :
    Tells policy events loop where
  policy := hpolicy
  order := horder
  subscribed hf := by rw [h.halted] at hf; cases hf
  reconciled hf := by rw [h.halted] at hf; cases hf
  marked since hs := by rw [h.healthySince] at hs; cases hs
  halted _ := h
  correctness _ := h.halted

/-- After an event that resets, nothing is subscribed or reconciled. -/
theorem not_subscribed {event : Event} (h : event.Resets) (hnot : ¬ event.Subscribes) :
    ¬ Subscribed (events ++ [event]) := by
  unfold Subscribed
  rw [since_append_singleton]
  tauto

theorem not_reconnected {event : Event} (h : event.Resets ∨ event.Subscribes)
    (hnot : ¬ event.Reconciles) : ¬ Reconnected (events ++ [event]) := by
  unfold Reconnected
  rw [since_append_singleton]
  tauto

/-- An event of no interest leaves the history as it was. -/
theorem subscribed_same {event : Event} (h : ¬ event.Resets) (hnot : ¬ event.Subscribes) :
    Subscribed (events ++ [event]) ↔ Subscribed events := by
  unfold Subscribed
  rw [since_append_singleton]
  tauto

theorem reconnected_same {event : Event} (h : ¬ event.Resets) (hnot : ¬ event.Subscribes)
    (hnone : ¬ event.Reconciles) : Reconnected (events ++ [event]) ↔ Reconnected events := by
  unfold Reconnected
  rw [since_append_singleton]
  tauto

theorem marked_same {event : Event} {since : Instant} (h : ¬ event.Clears)
    (hmarked : Marked since events) : Marked since (events ++ [event]) := by
  unfold Marked
  rw [since_append_singleton]
  exact .inr ⟨h, hmarked⟩

/-- A correctness error stays in the history. -/
theorem correctness_snoc {event : Event} :
    (∃ e ∈ events ++ [event], e.op.IsCorrectness) ↔
      (∃ e ∈ events, e.op.IsCorrectness) ∨ event.op.IsCorrectness := by
  simp [or_and_right, exists_or]

/-- An operation that takes readiness back: a disconnect, a new connection, or a failure. -/
theorem Tells.unready (h : Tells policy events self) {next : ReconnectLoop} {event : Event}
    (hresets : event.Resets) (hsubscribes : ¬ event.Subscribes) (hreconciles : ¬ event.Reconciles)
    (hcorrectness : ¬ event.op.IsCorrectness) (hpolicy : next.policy = self.policy)
    (hhalted : next.halted = self.halted) (hreadiness : next.readiness = .unavailable)
    (hsince : next.healthySince = none) (hunsubscribed : next.subscribedToWakeups = false)
    (hunreconciled : next.reconciledAfterSubscribe = false) : Tells policy (events ++ [event]) next where
  policy := hpolicy.trans h.policy
  order hr := by rw [hunreconciled] at hr; cases hr
  subscribed _ := by simp [hunsubscribed, not_subscribed hresets hsubscribes]
  reconciled _ := by simp [hunreconciled, not_reconnected (.inl hresets) hreconciles]
  marked since hs := by rw [hsince] at hs; cases hs
  halted hh := ⟨hh, hreadiness, hsince⟩
  correctness hc := by
    rw [correctness_snoc] at hc
    rw [hhalted]
    exact h.correctness (hc.resolve_right hcorrectness)

/-- A failure of availability, on its own or of a task. -/
theorem Tells.availabilityFailure (h : Tells policy events self) {event : Event}
    (hresets : event.Resets) (hsubscribes : ¬ event.Subscribes) (hreconciles : ¬ event.Reconciles)
    (hcorrectness : ¬ event.op.IsCorrectness) :
    Tells policy (events ++ [event]) self.recordAvailabilityFailure.2 := by
  unfold ReconnectLoop.recordAvailabilityFailure
  split
  · rename_i hh
    exact (h.halted hh).tells h.policy h.order
  · exact h.unready hresets hsubscribes hreconciles hcorrectness rfl rfl rfl rfl rfl rfl

/-- A correctness error halts. -/
theorem Tells.correctnessError (h : Tells policy events self) {event : Event} :
    Tells policy (events ++ [event]) self.recordCorrectnessError.2 :=
  Halted.tells ⟨rfl, rfl, rfl⟩ h.policy fun hr => by cases hr

/-- A ready mark, unless the loop has halted. The flags are as the mark leaves them. -/
theorem tells_catchUpComplete {loop : ReconnectLoop} (now : Instant) {op : LoopOp}
    (hop : op = .catchUpComplete now ∨ op = .readyAfterReconnect now)
    (hpolicy : loop.policy = policy)
    (horder : loop.reconciledAfterSubscribe = true → loop.subscribedToWakeups = true)
    (hsubscribed : loop.halted = false →
      (loop.subscribedToWakeups = true ↔ Subscribed (events ++ [⟨op, .done⟩])))
    (hreconciled : loop.halted = false →
      (loop.reconciledAfterSubscribe = true ↔ Reconnected (events ++ [⟨op, .done⟩])))
    (hhalted : loop.halted = true → Halted loop)
    (hcorrectness : (∃ event ∈ events, event.op.IsCorrectness) → loop.halted = true) :
    Tells policy (events ++ [⟨op, .done⟩]) (loop.recordCatchUpCompleteAt now) := by
  have hstays : (∃ e ∈ events ++ [⟨op, .done⟩], e.op.IsCorrectness) → loop.halted = true := by
    intro hc
    rw [correctness_snoc] at hc
    refine hcorrectness (hc.resolve_right ?_)
    rcases hop with rfl | rfl <;> exact id
  unfold ReconnectLoop.recordCatchUpCompleteAt
  split
  · rename_i hh
    exact (hhalted hh).tells hpolicy horder
  · rename_i hh
    exact {
      policy := hpolicy
      order := horder
      subscribed := hsubscribed
      reconciled := hreconciled
      marked := fun since hs => by
        cases hs
        unfold Marked
        rw [since_append_singleton]
        exact .inl ⟨hop, rfl⟩
      halted := fun hf => absurd hf hh
      correctness := hstays }

/-- A subscribe, in any order. -/
theorem Tells.subscribedForWakeups (h : Tells policy events self) :
    Tells policy (events ++ [⟨.subscribedForWakeups, .done⟩]) self.recordSubscribedForWakeups where
  policy := h.policy
  order _ := rfl
  subscribed _ := by
    have hnow : Subscribed (events ++ [⟨.subscribedForWakeups, .done⟩]) := by
      unfold Subscribed
      rw [since_append_singleton]
      exact .inl rfl
    exact ⟨fun _ => hnow, fun _ => rfl⟩
  reconciled _ := by
    have hnot : ¬ Reconnected (events ++ [⟨.subscribedForWakeups, .done⟩]) :=
      not_reconnected (.inr rfl) (fun hr => by cases hr.1)
    exact ⟨fun hr => (by cases hr), fun hr => absurd hr hnot⟩
  marked since hs := by cases hs
  halted hh := ⟨hh, rfl, rfl⟩
  correctness hc := by
    rw [correctness_snoc] at hc
    exact h.correctness (hc.resolve_right id)

/-- A refused operation of no further interest. -/
theorem Tells.refused (h : Tells policy events self) {event : Event} (hresets : ¬ event.Resets)
    (hsubscribes : ¬ event.Subscribes) (hreconciles : ¬ event.Reconciles) (hclears : ¬ event.Clears)
    (hcorrectness : ¬ event.op.IsCorrectness) : Tells policy (events ++ [event]) self where
  policy := h.policy
  order := h.order
  subscribed hf := by rw [subscribed_same hresets hsubscribes]; exact h.subscribed hf
  reconciled hf := by rw [reconnected_same hresets hsubscribes hreconciles]; exact h.reconciled hf
  marked since hs := marked_same hclears (h.marked since hs)
  halted := h.halted
  correctness hc := by
    rw [correctness_snoc] at hc
    exact h.correctness (hc.resolve_right hcorrectness)

/-- A reconcile, which the loop takes after a subscribe only. -/
theorem Tells.reconciledToHead (h : Tells policy events self) :
    Tells policy (events ++ [⟨.reconciledToHead, (self.answered self.recordReconciledToHead).1⟩])
      (self.answered self.recordReconciledToHead).2 := by
  unfold ReconnectLoop.recordReconciledToHead
  split
  · rename_i hs
    exact {
      policy := h.policy
      order := fun _ => hs
      subscribed := fun hf => by
        rw [subscribed_same id (fun he => by cases he)]
        exact h.subscribed hf
      reconciled := fun hf => by
        have hnow : Reconnected (events ++ [⟨.reconciledToHead, .done⟩]) := by
          unfold Reconnected
          rw [since_append_singleton]
          exact .inl ⟨⟨rfl, rfl⟩, (h.subscribed hf).1 hs⟩
        exact ⟨fun _ => hnow, fun _ => rfl⟩
      marked := fun since hm => marked_same id (h.marked since hm)
      halted := fun hh => ⟨hh, rfl, (h.halted hh).healthySince⟩
      correctness := fun hc => by
        rw [correctness_snoc] at hc
        exact h.correctness (hc.resolve_right id) }
  · exact h.refused id (fun he => by cases he) (fun he => by cases he.2) id id

/-- A ready mark after a reconnect, which ends the reconnect. -/
theorem Tells.readyAfterReconnect (h : Tells policy events self) (now : Instant) :
    Tells policy (events ++ [⟨.readyAfterReconnect now,
        (self.answered (self.recordReadyAfterReconnectAt now)).1⟩])
      (self.answered (self.recordReadyAfterReconnectAt now)).2 := by
  unfold ReconnectLoop.recordReadyAfterReconnectAt
  split
  · -- the two flags go first, and the loop is marked ready as at a catch-up
    have hresets : Event.Resets ⟨.readyAfterReconnect now, .done⟩ := rfl
    have hnot : ¬ Subscribed (events ++ [⟨.readyAfterReconnect now, .done⟩]) :=
      not_subscribed hresets (fun he => by cases he)
    have hnone : ¬ Reconnected (events ++ [⟨.readyAfterReconnect now, .done⟩]) :=
      not_reconnected (.inl hresets) (fun he => by cases he.1)
    refine tells_catchUpComplete now (.inr rfl) h.policy (fun hr => by cases hr) (fun _ => ?_)
      (fun _ => ?_) (fun hh => ⟨hh, (h.halted hh).readiness, (h.halted hh).healthySince⟩) h.correctness
    · exact ⟨fun hs => (by cases hs), fun hs => absurd hs hnot⟩
    · exact ⟨fun hr => (by cases hr), fun hr => absurd hr hnone⟩
  · exact h.refused (fun he => by cases he) (fun he => by cases he) (fun he => by cases he.1) id id

theorem ReconnectLoop.resetBackoff_fields (loop : ReconnectLoop) (now : Instant) :
    ∃ attempt, loop.resetBackoffIfMinHealthyElapsed now = { loop with attempt } := by
  unfold resetBackoffIfMinHealthyElapsed
  split
  · exact ⟨0, rfl⟩
  · exact ⟨loop.attempt, rfl⟩

/-- A disconnect, which takes readiness back whatever it does to the attempts. -/
theorem Tells.disconnect (h : Tells policy events self) (now : Instant) :
    Tells policy (events ++ [⟨.disconnect now, .done⟩]) (self.recordDisconnectAt now) := by
  unfold ReconnectLoop.recordDisconnectAt
  obtain ⟨attempt, hreset⟩ := self.resetBackoff_fields now
  rw [hreset]
  exact h.unready trivial (fun he => by cases he) (fun he => by cases he.1) id rfl rfl rfl rfl rfl rfl

/-- **One operation.** -/
theorem tells_step (h : Tells policy events self) (op : LoopOp) :
    Tells policy (events ++ [⟨op, (self.step op).1⟩]) (self.step op).2 := by
  cases op with
  | disconnect now => exact h.disconnect now
  | connectedNeedsReconciliation =>
    exact h.unready trivial (fun he => by cases he) (fun he => by cases he.1) id
      rfl rfl rfl rfl rfl rfl
  | catchUpComplete now =>
    refine tells_catchUpComplete now (.inl rfl) h.policy h.order ?_ ?_ h.halted h.correctness
    · rw [subscribed_same id (fun he => by cases he)]
      exact h.subscribed
    · rw [reconnected_same id (fun he => by cases he) (fun he => by cases he.1)]
      exact h.reconciled
  | subscribedForWakeups => exact h.subscribedForWakeups
  | reconciledToHead => exact h.reconciledToHead
  | readyAfterReconnect now => exact h.readyAfterReconnect now
  | availabilityFailure =>
    exact h.availabilityFailure trivial (fun he => by cases he) (fun he => by cases he.1) id
  | correctnessError => exact h.correctnessError
  | taskError error =>
    show Tells policy (events ++ [⟨.taskError error, _⟩]) (self.recordTaskError error).2
    unfold ReconnectLoop.recordTaskError
    cases hclass : error.classify with
    | transient =>
      refine h.availabilityFailure trivial (fun he => by cases he) (fun he => by cases he.1) ?_
      intro hc
      have hc : error.classify = .correctness := hc
      rw [hclass] at hc
      cases hc
    | correctness => exact h.correctnessError

/-- **Every sequence of operations**: the fields of the loop tell its history. -/
theorem tells_play (policy : ReconnectPolicy) (ops : List LoopOp) :
    Tells policy ((ReconnectLoop.new policy).history ops) ((ReconnectLoop.new policy).play ops) := by
  induction ops using List.reverseRecOn with
  | nil => exact tells_new
  | append_singleton ops op ih =>
    rw [ReconnectLoop.play_append, ReconnectLoop.history_append]
    exact tells_step ih op

end

/-! ## The delays -/

theorem ReconnectPolicy.spread_le (policy : ReconnectPolicy) (attempt : Nat) :
    policy.spreadForAttempt attempt ≤ policy.deterministicSpread := by
  unfold spreadForAttempt
  simp only []
  split
  · exact Nat.zero_le _
  · exact (Nat.le_of_lt_succ (Nat.mod_lt _ (Nat.succ_pos _))).trans (Nat.min_le_left _ _)

theorem ReconnectPolicy.le_delay {policy : ReconnectPolicy} (hle : policy.baseDelay ≤ policy.maxDelay)
    (hbase : policy.baseDelay < u64Max) (attempt : Nat) :
    policy.baseDelay ≤ policy.delayForAttempt attempt := by
  have hdouble : policy.baseDelay ≤ policy.baseDelay * 2 ^ min (attempt - 1) 31 :=
    Nat.le_mul_of_pos_right _ (Nat.two_pow_pos _)
  have hnanos : u64Max ≤ durationMax := by decide
  unfold delayForAttempt Duration.saturatingAdd saturatingDurationMul
  refine Nat.le_min.2 ⟨?_, hbase.le.trans hnanos⟩
  exact (Nat.le_min.2 ⟨Nat.le_min.2 ⟨hdouble, hbase.le⟩, hle⟩).trans (Nat.le_add_right _ _)

theorem ReconnectPolicy.delay_le (policy : ReconnectPolicy) (attempt : Nat) :
    policy.delayForAttempt attempt ≤ policy.maxDelay + policy.deterministicSpread := by
  unfold delayForAttempt Duration.saturatingAdd
  exact (Nat.min_le_left _ _).trans
    (Nat.add_le_add (Nat.min_le_right _ _) (policy.spread_le attempt))

/-- What `new` accepts keeps the base delay under the cap, and is healthy for some time. -/
theorem ReconnectPolicy.new_ok {base cap spread healthy : Duration} {policy : ReconnectPolicy}
    (h : ReconnectPolicy.new base cap spread healthy = .ok policy) :
    policy = ⟨base, cap, spread, healthy⟩ ∧ base ≤ cap ∧ 0 < healthy := by
  unfold ReconnectPolicy.new at h
  split at h
  · cases h
  split at h
  · cases h
  split at h
  · cases h
  · rename_i hhealthy hle
    cases h
    exact ⟨rfl, Nat.le_of_not_lt hle, Nat.pos_of_ne_zero hhealthy⟩

/-! ## What an operation may answer -/

section
variable {policy : ReconnectPolicy} {loop : ReconnectLoop} {events : List Event} {op : LoopOp}

/-- A halted loop counts no failure. -/
theorem halted_answers (h : loop.halted = true) (hop : op.IsAvailability) :
    loop.step op = (.action .halt, loop) := by
  have hfails : loop.recordAvailabilityFailure = (.halt, loop) := by
    unfold ReconnectLoop.recordAvailabilityFailure
    rw [if_pos h]
  cases op with
  | availabilityFailure =>
    show (LoopAnswer.action loop.recordAvailabilityFailure.1, loop.recordAvailabilityFailure.2) = _
    rw [hfails]
  | taskError error =>
    have hclass : error.classify = .transient := hop
    show (LoopAnswer.action (loop.recordTaskError error).1, (loop.recordTaskError error).2) = _
    unfold ReconnectLoop.recordTaskError
    rw [hclass]
    show (LoopAnswer.action loop.recordAvailabilityFailure.1, loop.recordAvailabilityFailure.2) = _
    rw [hfails]
  | _ => exact hop.elim

theorem Tells.ready_iff (h : Tells policy events loop) (hrunning : loop.halted = false)
    (now : Instant) : (loop.step (.readyAfterReconnect now)).1 = .done ↔ Reconnected events := by
  have hflag := h.reconciled hrunning
  show (loop.answered (loop.recordReadyAfterReconnectAt now)).1 = .done ↔ _
  unfold ReconnectLoop.recordReadyAfterReconnectAt
  split
  · rename_i hflags
    exact ⟨fun _ => hflag.1 hflags.2, fun _ => rfl⟩
  · rename_i hflags
    refine ⟨fun hd => (by cases hd), fun hr => ?_⟩
    exact absurd ⟨h.order (hflag.2 hr), hflag.2 hr⟩ hflags

/-- A failure counts once, unless the loop has halted. -/
theorem ReconnectLoop.failure_attempt (loop : ReconnectLoop) :
    loop.recordAvailabilityFailure.2.attempt = loop.attempt ∨
      loop.recordAvailabilityFailure.2.attempt = satAdd loop.attempt 1 := by
  unfold recordAvailabilityFailure
  split
  · exact .inl rfl
  · exact .inr rfl

/-- **What becomes of the attempts**: they stay, they count a failure, or a disconnect
after a long enough ready time takes them back. -/
theorem ReconnectLoop.step_attempt (loop : ReconnectLoop) (op : LoopOp) :
    (loop.step op).2.attempt = loop.attempt ∨ (loop.step op).2.attempt = satAdd loop.attempt 1 ∨
      ∃ now since, op = .disconnect now ∧ loop.healthySince = some since ∧
        loop.policy.minHealthyDuration ≤ now - since ∧ (loop.step op).2.attempt = 0 := by
  cases op with
  | disconnect now =>
    show (loop.resetBackoffIfMinHealthyElapsed now).attempt = _ ∨ _ ∨ _
    unfold resetBackoffIfMinHealthyElapsed
    split
    · rename_i hany
      cases hsince : loop.healthySince with
      | none => simp [hsince] at hany
      | some since =>
        refine .inr (.inr ⟨now, since, rfl, rfl, by simpa [hsince] using hany, ?_⟩)
        show (loop.resetBackoffIfMinHealthyElapsed now).attempt = 0
        unfold resetBackoffIfMinHealthyElapsed
        rw [if_pos hany]
    · exact .inl rfl
  | connectedNeedsReconciliation => exact .inl rfl
  | catchUpComplete now =>
    refine .inl ?_
    show (loop.recordCatchUpCompleteAt now).attempt = _
    unfold recordCatchUpCompleteAt
    split <;> rfl
  | subscribedForWakeups => exact .inl rfl
  | reconciledToHead =>
    refine .inl ?_
    show (loop.answered loop.recordReconciledToHead).2.attempt = _
    unfold recordReconciledToHead
    split <;> rfl
  | readyAfterReconnect now =>
    refine .inl ?_
    show (loop.answered (loop.recordReadyAfterReconnectAt now)).2.attempt = _
    unfold recordReadyAfterReconnectAt recordCatchUpCompleteAt
    split
    · simp only [answered]
      split <;> rfl
    · rfl
  | availabilityFailure => exact (loop.failure_attempt).imp_right .inl
  | correctnessError => exact .inl rfl
  | taskError error =>
    show (loop.recordTaskError error).2.attempt = _ ∨ (loop.recordTaskError error).2.attempt = _ ∨ _
    unfold recordTaskError
    cases error.classify with
    | transient => exact (loop.failure_attempt).imp_right .inl
    | correctness => exact .inl rfl

theorem ReconnectLoop.attempt_play (policy : ReconnectPolicy) (ops : List LoopOp) :
    ((ReconnectLoop.new policy).play ops).attempt ≤ u64Max := by
  induction ops using List.reverseRecOn with
  | nil => exact Nat.zero_le _
  | append_singleton ops op ih =>
    rw [play_append]
    rcases ((ReconnectLoop.new policy).play ops).step_attempt op with h | h | h
    · rw [h]
      exact ih
    · rw [h]
      exact Nat.min_le_right _ _
    · obtain ⟨now, since, -, -, -, hzero⟩ := h
      rw [hzero]
      exact Nat.zero_le _

/-- A failure's retry has the delay of some attempt. -/
theorem ReconnectLoop.failure_retry {delay : Duration}
    (h : loop.recordAvailabilityFailure.1 = .retryAfter delay) :
    ∃ attempt, delay = loop.policy.delayForAttempt attempt := by
  unfold recordAvailabilityFailure at h
  split at h
  · cases h
  · cases h
    exact ⟨_, rfl⟩

theorem ReconnectLoop.step_retry {delay : Duration}
    (h : (loop.step op).1 = .action (.retryAfter delay)) :
    ∃ attempt, delay = loop.policy.delayForAttempt attempt := by
  cases op with
  | availabilityFailure =>
    have h : LoopAnswer.action loop.recordAvailabilityFailure.1 = .action (.retryAfter delay) := h
    injection h with h
    exact failure_retry h
  | taskError error =>
    have h : LoopAnswer.action (loop.recordTaskError error).1 = .action (.retryAfter delay) := h
    injection h with h
    unfold recordTaskError at h
    cases hclass : error.classify with
    | transient =>
      rw [hclass] at h
      exact failure_retry h
    | correctness =>
      rw [hclass] at h
      cases h
  | correctnessError => cases h
  | reconciledToHead =>
    have h : (loop.answered loop.recordReconciledToHead).1 = .action (.retryAfter delay) := h
    cases hr : loop.recordReconciledToHead <;> rw [hr] at h <;> cases h
  | readyAfterReconnect now =>
    have h : (loop.answered (loop.recordReadyAfterReconnectAt now)).1 =
      .action (.retryAfter delay) := h
    cases hr : loop.recordReadyAfterReconnectAt now <;> rw [hr] at h <;> cases h
  | _ => cases h

end

/-! ## Runs of any length -/

/-- **The reconnect loop is safe.** After any operations on a new loop: a correctness error
among them has halted it for good, and a halted loop counts no failure; while it is not halted, it
can be marked ready exactly after a subscribe and a reconcile in this order; only a disconnect
long enough after a ready mark takes attempts back; and each retry waits as the policy says. -/
theorem reconnect_safe {base cap spread healthy : Duration} {policy : ReconnectPolicy}
    (hnew : ReconnectPolicy.new base cap spread healthy = .ok policy) (hbase : base < u64Max)
    -- from `u64Max` on, the `spread_nanos + 1` of the source overflows
    (_hspread : spread < u64Max) (ops : List LoopOp) :
    let loop := (ReconnectLoop.new policy).play ops
    let events := (ReconnectLoop.new policy).history ops
    ((∃ event ∈ events, event.op.IsCorrectness) →
      loop.halted = true ∧ loop.readiness = .unavailable ∧
        ∀ op : LoopOp, op.IsAvailability →
          (loop.step op).1 = .action .halt ∧ (loop.step op).2.attempt = loop.attempt) ∧
    (loop.halted = false →
      ∀ now, (loop.step (.readyAfterReconnect now)).1 = .done ↔ Reconnected events) ∧
    (∀ op : LoopOp, (loop.step op).2.attempt < loop.attempt →
      ∃ now since, op = .disconnect now ∧ since + healthy ≤ now ∧ Marked since events) ∧
    ∀ (op : LoopOp) (delay : Duration), (loop.step op).1 = .action (.retryAfter delay) →
      base ≤ delay ∧ delay ≤ cap + spread := by
  intro loop events
  obtain ⟨rfl, hle, hpos⟩ := ReconnectPolicy.new_ok hnew
  have htells : Tells _ events loop := tells_play _ ops
  refine ⟨fun hc => ?_, fun hrunning now => htells.ready_iff hrunning now, fun op hless => ?_,
    fun op delay hretry => ?_⟩
  · have hhalted := htells.halted (htells.correctness hc)
    refine ⟨hhalted.halted, hhalted.readiness, fun op hop => ?_⟩
    rw [halted_answers hhalted.halted hop]
    exact ⟨rfl, rfl⟩
  · have hbound : loop.attempt ≤ u64Max := ReconnectLoop.attempt_play _ ops
    rcases loop.step_attempt op with h | h | h
    · omega
    · unfold satAdd at h
      omega
    · obtain ⟨now, since, hop, hsince, helapsed, -⟩ := h
      rw [htells.policy] at helapsed
      have hpast : healthy ≤ now - since := helapsed
      have hlater : since ≤ now := (Nat.lt_of_sub_pos (hpos.trans_le hpast)).le
      have hready : since + healthy ≤ now := Nat.add_le_of_le_sub' hlater hpast
      exact ⟨now, since, hop, hready, htells.marked since hsince⟩
  · obtain ⟨attempt, rfl⟩ := ReconnectLoop.step_retry hretry
    rw [htells.policy]
    exact ⟨@ReconnectPolicy.le_delay ⟨base, cap, spread, healthy⟩ hle hbase attempt,
      ReconnectPolicy.delay_le _ attempt⟩

/-- One failure, a reconnect that is ready at 3, and a disconnect at 9, after more than 5. -/
theorem reconnect_safe_disconnect :
    let ops := [.availabilityFailure, .subscribedForWakeups, .reconciledToHead, .readyAfterReconnect 3]
    let loop := (ReconnectLoop.new ⟨2, 8, 1, 5⟩).play ops
    (loop.step (.disconnect 9)).2.attempt < loop.attempt ∧
      ∃ now since, LoopOp.disconnect 9 = .disconnect now ∧ since + 5 ≤ now ∧
        Marked since ((ReconnectLoop.new ⟨2, 8, 1, 5⟩).history ops) := by
  refine ⟨by decide, ?_⟩
  exact (@reconnect_safe 2 8 1 5 ⟨2, 8, 1, 5⟩ rfl (by decide) (by decide) _).2.2.1 (.disconnect 9)
    (by decide)

end Chainweave.Runtime
