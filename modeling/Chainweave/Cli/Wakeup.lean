import Chainweave.Core.LiveKeeps
import Chainweave.Rpc.Subscription
import Mathlib.Logic.Function.Basic

/-!
# Coalesced wakeups lose no head

`crates/chainweave-cli/src/live_runtime.rs`: the two tasks that wake the tracker,
and `tracker_task` between two reads of the head, in any interleaving.

* `step`: one step of the source, of a waking task or of the tracker. The head a
  task wakes for may be an old one, and the source goes on while `try_wake` runs.
* `Invariant`: a change whose wakeup was sent is read, or a wakeup is unread, or
  one was taken and the head is still to be read.
* `no_head_lost`: so of every reachable state in which `tracker_task` runs.
* `run_reads_head`: a reconciliation that returns has read the head, which is what
  `reconciled` asks of the tracker.
-/
namespace Chainweave.Wakeup

open Stateful Chainweave.Chain Chainweave.Backfill Chainweave.Rpc Chainweave.Live

/-- The tasks that hold a `NewHeadWakeupSender`: `spawn_new_heads_wakeup`, `poll_wakeup_task`. -/
inductive Waker where
  | subscription | poll
  deriving DecidableEq, Repr

/-- Where a waking task is. A change is named by how many heads came before it. -/
inductive WakerPc where
  /-- waits for a header, or for a tick -/
  | idle
  /-- is about to call `try_wake`, for `change` -/
  | noticed (change : Nat)
  /-- has sent, and `try_wake` has not returned -/
  | woke (change : Nat)
  deriving DecidableEq, Repr

/-- Where `tracker_task` is.
mirrors crates/chainweave-cli/src/live_runtime.rs:789-853 -/
inductive TrackerPc where
  /-- in its first `reconcile_and_publish`, before the head is read -/
  | starting
  /-- at `wakeup_rx.recv()` -/
  | waiting
  /-- has received, and reads the head next -/
  | received
  /-- has read the head -/
  | reconciling
  /-- has returned, for an error or a shutdown -/
  | returned
  deriving DecidableEq, Repr

structure System (χ : Type) where
  /-- how often the head of the source has changed -/
  changes : Nat
  channel : χ
  wakers : Waker → WakerPc
  tracker : TrackerPc
  /-- `changes` at the tracker's last read of the head -/
  lastRead : Option Nat
  /-- ghost: the changes whose `try_wake` has returned -/
  announced : List Nat

inductive Label where
  | change
  | notice (waker : Waker) (change : Nat)
  | waker (waker : Waker)
  | receive
  | readHead
  | reconciled
  | trackerReturns
  deriving DecidableEq, Repr

section
variable {χ : Type} (mpsc : Mpsc χ)

def start : System χ where
  changes := 0
  channel := mpsc.channel
  wakers _ := .idle
  tracker := .starting
  lastRead := none
  announced := []

def System.setWaker (s : System χ) (waker : Waker) (pc : WakerPc) : System χ :=
  { s with wakers := Function.update s.wakers waker pc }

/-- The own step of a task that wakes: into `try_wake`, or back from it.
mirrors crates/chainweave-rpc/src/subscription.rs:61-63 and
crates/chainweave-cli/src/live_runtime.rs:772-787 -/
def wakerStep (s : System χ) (waker : Waker) : Option (System χ) :=
  match s.wakers waker with
  | .idle => none
  | .noticed n =>
    some { s.setWaker waker (.woke n) with
      channel := (NewHeadWakeupSender.tryWake mpsc s.channel).2 }
  | .woke n => some { s.setWaker waker .idle with announced := n :: s.announced }

/-- The tracker reads the head at least once before it waits again; its receiver goes with it.
mirrors crates/chainweave-cli/src/live_runtime.rs:789-853 -/
def trackerStep (s : System χ) : Label → Option (System χ)
  | .receive =>
    if s.tracker = .waiting then
      (mpsc.recv s.channel).map fun channel => { s with channel, tracker := .received }
    else none
  | .readHead =>
    if s.tracker = .waiting ∨ s.tracker = .returned then none
    else some { s with tracker := .reconciling, lastRead := some s.changes }
  | .reconciled => if s.tracker = .reconciling then some { s with tracker := .waiting } else none
  | .trackerReturns =>
    if s.tracker = .returned then none
    else some { s with tracker := .returned, channel := mpsc.dropReceiver s.channel }
  | _ => none

def step (s : System χ) : Label → Option (System χ)
  | .change => some { s with changes := s.changes + 1 }
  | .notice waker n =>
    if s.wakers waker = .idle ∧ n ≤ s.changes then some (s.setWaker waker (.noticed n)) else none
  | .waker waker => wakerStep mpsc s waker
  | label => trackerStep mpsc s label

/-- The states of the interleavings. -/
inductive Reachable : System χ → Prop
  | start : Reachable (start mpsc)
  | step {s s' : System χ} (label : Label) : Reachable s → step mpsc s label = some s' → Reachable s'

end

/-! ## The invariant -/

section
variable {χ : Type} {mpsc : Mpsc χ}

/-- The wakeup for a change is in the channel, or `try_wake` has returned from it. -/
def System.Sent (s : System χ) (n : Nat) : Prop :=
  n ∈ s.announced ∨ ∃ waker, s.wakers waker = .woke n

/-- The head has changed since the tracker read it. -/
def System.ChangedSinceRead (s : System χ) (n : Nat) : Prop := ∀ k, s.lastRead = some k → k < n

/-- A read of the head is to come. -/
def Wakes (mpsc : Mpsc χ) (s : System χ) : Prop :=
  0 < mpsc.len s.channel ∨ s.tracker = .received

structure Invariant (mpsc : Mpsc χ) (s : System χ) : Prop where
  noticed_le : ∀ waker n, s.wakers waker = .noticed n → n ≤ s.changes
  sent_le : ∀ n, s.Sent n → n ≤ s.changes
  is_open : s.tracker ≠ .returned → mpsc.isClosed s.channel = false
  wakes : s.tracker ≠ .returned → ∀ n, s.Sent n → s.ChangedSinceRead n → Wakes mpsc s

theorem setWaker_eq {s : System χ} {waker other : Waker} {pc pc' : WakerPc}
    (h : (s.setWaker waker pc).wakers other = pc') :
    other = waker ∧ pc' = pc ∨ s.wakers other = pc' := by
  simp only [System.setWaker, Function.update_apply] at h
  split at h
  · next same => exact .inl ⟨same, h.symm⟩
  · exact .inr h

theorem start_invariant (h : mpsc.Documented) : Invariant mpsc (start mpsc) where
  noticed_le _ _ hn := by cases hn
  sent_le _ hn := by
    rcases hn with hn | ⟨_, hn⟩
    · cases hn
    · cases hn
  is_open _ := h.starts_open
  wakes _ _ hn := by
    rcases hn with hn | ⟨_, hn⟩
    · cases hn
    · cases hn

theorem change_invariant {s : System χ} (hs : Invariant mpsc s) :
    Invariant mpsc { s with changes := s.changes + 1 } where
  noticed_le waker n hn := Nat.le_succ_of_le (hs.noticed_le waker n hn)
  sent_le n hn := Nat.le_succ_of_le (hs.sent_le n hn)
  is_open := hs.is_open
  wakes := hs.wakes

/-- A task notices a change, and nothing is sent yet. -/
theorem notice_invariant {s : System χ} {waker : Waker} {n : Nat} (hn : n ≤ s.changes)
    (hs : Invariant mpsc s) : Invariant mpsc (s.setWaker waker (.noticed n)) := by
  have hsent : ∀ m, (s.setWaker waker (.noticed n)).Sent m → s.Sent m := by
    intro m hm
    rcases hm with hm | ⟨other, hm⟩
    · exact .inl hm
    · rcases setWaker_eq hm with ⟨-, hpc⟩ | hpc
      · cases hpc
      · exact .inr ⟨other, hpc⟩
  exact {
    noticed_le := by
      intro other m hm
      rcases setWaker_eq hm with ⟨-, hpc⟩ | hpc
      · cases hpc
        exact hn
      · exact hs.noticed_le other m hpc
    sent_le := fun m hm => hs.sent_le m (hsent m hm)
    is_open := hs.is_open
    wakes := fun running m hm => hs.wakes running m (hsent m hm) }

/-- `try_wake` leaves a wakeup unread, whatever it answers. -/
theorem tryWake_invariant (h : mpsc.Documented) {s : System χ} {waker : Waker} {n : Nat}
    (hpc : s.wakers waker = .noticed n) (hs : Invariant mpsc s) :
    Invariant mpsc { s.setWaker waker (.woke n) with
      channel := (NewHeadWakeupSender.tryWake mpsc s.channel).2 } where
  noticed_le other m hm := by
    rcases setWaker_eq hm with ⟨-, hpc⟩ | hpc
    · cases hpc
    · exact hs.noticed_le other m hpc
  sent_le m hm := by
    rcases hm with hm | ⟨other, hm⟩
    · exact hs.sent_le m (.inl hm)
    · rcases setWaker_eq hm with ⟨-, hwoke⟩ | hwoke
      · cases hwoke
        exact hs.noticed_le waker _ hpc
      · exact hs.sent_le m (.inr ⟨other, hwoke⟩)
  is_open running := by
    rw [NewHeadWakeupSender.tryWake_isClosed h]
    exact hs.is_open running
  wakes running _ _ _ := .inl (NewHeadWakeupSender.tryWake_unread h (hs.is_open running))

theorem wakeReturns_invariant {s : System χ} {waker : Waker} {n : Nat}
    (hpc : s.wakers waker = .woke n) (hs : Invariant mpsc s) :
    Invariant mpsc { s.setWaker waker .idle with announced := n :: s.announced } := by
  have hsent : ∀ m, ({ s.setWaker waker .idle with announced := n :: s.announced }).Sent m →
      s.Sent m := by
    intro m hm
    rcases hm with hm | ⟨other, hm⟩
    · rcases List.mem_cons.1 hm with heq | hm
      · rw [heq]
        exact .inr ⟨waker, hpc⟩
      · exact .inl hm
    · rcases setWaker_eq hm with ⟨-, hidle⟩ | hwoke
      · cases hidle
      · exact .inr ⟨other, hwoke⟩
  exact {
    noticed_le := by
      intro other m hm
      rcases setWaker_eq hm with ⟨-, hidle⟩ | hnoticed
      · cases hidle
      · exact hs.noticed_le other m hnoticed
    sent_le := fun m hm => hs.sent_le m (hsent m hm)
    is_open := hs.is_open
    wakes := fun running m hm => hs.wakes running m (hsent m hm) }

theorem wakerStep_invariant (h : mpsc.Documented) {s s' : System χ} {waker : Waker}
    (hstep : wakerStep mpsc s waker = some s') (hs : Invariant mpsc s) : Invariant mpsc s' := by
  unfold wakerStep at hstep
  split at hstep
  · cases hstep
  · next hpc =>
    cases hstep
    exact tryWake_invariant h hpc hs
  · next hpc =>
    cases hstep
    exact wakeReturns_invariant hpc hs

/-- The read of the head sees every change whose wakeup was sent. -/
theorem readHead_invariant {s : System χ} (running : s.tracker ≠ .returned) (hs : Invariant mpsc s) :
    Invariant mpsc { s with tracker := .reconciling, lastRead := some s.changes } where
  noticed_le := hs.noticed_le
  sent_le := hs.sent_le
  is_open _ := hs.is_open running
  wakes _ n hn changed := by
    have hle := hs.sent_le n hn
    have hlt := changed s.changes rfl
    omega

theorem trackerStep_invariant (h : mpsc.Documented) {s s' : System χ} (label : Label)
    (hstep : trackerStep mpsc s label = some s') (hs : Invariant mpsc s) : Invariant mpsc s' := by
  cases label with
  | receive =>
    simp only [trackerStep, Option.ite_none_right_eq_some, Option.map_eq_some_iff] at hstep
    obtain ⟨waiting, channel, hrecv, rfl⟩ := hstep
    have running : s.tracker ≠ .returned := by simp [waiting]
    exact {
      noticed_le := hs.noticed_le
      sent_le := hs.sent_le
      is_open := fun _ => (h.recv_closes_nothing _ _ hrecv).trans (hs.is_open running)
      wakes := fun _ _ _ _ => .inr rfl }
  | readHead =>
    simp only [trackerStep, Option.ite_none_left_eq_some] at hstep
    obtain ⟨hpc, hstep⟩ := hstep
    cases hstep
    exact readHead_invariant (fun returned => hpc (.inr returned)) hs
  | reconciled =>
    simp only [trackerStep, Option.ite_none_right_eq_some] at hstep
    obtain ⟨reconciling, hstep⟩ := hstep
    cases hstep
    have running : s.tracker ≠ .returned := by simp [reconciling]
    exact {
      noticed_le := hs.noticed_le
      sent_le := hs.sent_le
      is_open := fun _ => hs.is_open running
      wakes := by
        intro _ n hn changed
        rcases hs.wakes running n hn changed with unread | received
        · exact .inl unread
        · rw [reconciling] at received
          cases received }
  | trackerReturns =>
    simp only [trackerStep, Option.ite_none_left_eq_some] at hstep
    obtain ⟨-, hstep⟩ := hstep
    cases hstep
    exact {
      noticed_le := hs.noticed_le
      sent_le := hs.sent_le
      is_open := fun running => absurd rfl running
      wakes := fun running => absurd rfl running }
  | change => cases hstep
  | notice waker n => cases hstep
  | waker waker => cases hstep

theorem step_invariant (h : mpsc.Documented) {s s' : System χ} {label : Label}
    (hstep : step mpsc s label = some s') (hs : Invariant mpsc s) : Invariant mpsc s' := by
  cases label with
  | change =>
    cases hstep
    exact change_invariant hs
  | notice waker n =>
    simp only [step, Option.ite_none_right_eq_some] at hstep
    obtain ⟨⟨-, hn⟩, hstep⟩ := hstep
    cases hstep
    exact notice_invariant hn hs
  | waker waker => exact wakerStep_invariant h hstep hs
  | receive => exact trackerStep_invariant h .receive hstep hs
  | readHead => exact trackerStep_invariant h .readHead hstep hs
  | reconciled => exact trackerStep_invariant h .reconciled hstep hs
  | trackerReturns => exact trackerStep_invariant h .trackerReturns hstep hs

theorem reachable_invariant (h : mpsc.Documented) {s : System χ} (reached : Reachable mpsc s) :
    Invariant mpsc s := by
  induction reached with
  | start => exact start_invariant h
  | step label _ hstep ih => exact step_invariant h hstep ih

/-! ## No head is lost -/

/-- A run of the interleaving. -/
def run (mpsc : Mpsc χ) (labels : List Label) (s : System χ) : Option (System χ) :=
  labels.foldlM (step mpsc) s

theorem reachable_run (labels : List Label) {s s' : System χ} (reached : Reachable mpsc s)
    (h : run mpsc labels s = some s') : Reachable mpsc s' := by
  induction labels generalizing s with
  | nil =>
    cases h
    exact reached
  | cons label labels ih =>
    simp only [run, List.foldlM_cons, Option.bind_eq_bind, Option.bind_eq_some_iff] at h
    obtain ⟨next, hstep, h⟩ := h
    exact ih (.step label reached hstep) h

/-- While `tracker_task` runs, an announced change that it has not read has a wakeup unread, or one
taken before a read to come; and a tracker that waits at an empty channel has read every
announced change. -/
theorem no_head_lost (h : mpsc.Documented) {s : System χ} (reached : Reachable mpsc s)
    (running : s.tracker ≠ .returned) :
    (∀ n ∈ s.announced, s.ChangedSinceRead n →
      0 < mpsc.len s.channel ∨ s.tracker = .received) ∧
    (mpsc.len s.channel = 0 → s.tracker = .waiting →
      ∀ n ∈ s.announced, ∃ k, s.lastRead = some k ∧ n ≤ k) := by
  have hs := reachable_invariant h reached
  constructor
  · intro n hn changed
    exact hs.wakes running n (.inl hn) changed
  · intro empty waiting n hn
    by_contra hunread
    have changed : s.ChangedSinceRead n := by
      intro k hk
      by_contra hle
      exact hunread ⟨k, hk, by omega⟩
    rcases hs.wakes running n (.inl hn) changed with unread | received
    · omega
    · rw [waiting] at received
      cases received

/-- Two changes, two wakeups: the second finds the channel full. -/
def coalesced : List Label :=
  [.readHead, .reconciled, .change, .notice .subscription 1, .waker .subscription, .change,
    .notice .poll 2, .waker .poll, .waker .subscription, .waker .poll, .receive]

/-- Both changes are still to be read, and the tracker has received. -/
theorem no_head_lost_coalesced :
    ∃ s, run slot coalesced (start slot) = some s ∧
      s.announced = [2, 1] ∧ s.lastRead = some 0 ∧ slot.len s.channel = 0 ∧
      ((∀ n ∈ s.announced, s.ChangedSinceRead n →
        0 < slot.len s.channel ∨ s.tracker = .received) ∧
      (slot.len s.channel = 0 → s.tracker = .waiting →
        ∀ n ∈ s.announced, ∃ k, s.lastRead = some k ∧ n ≤ k)) := by
  refine ⟨_, rfl, rfl, rfl, rfl, ?_⟩
  exact no_head_lost slot_documented (reachable_run coalesced .start rfl) (by decide)

end

/-! ## A reconciliation reads the head -/

section
variable {σ κ ε β : Type} {config : LiveConfig} {source : LiveSource σ ε β} {sink : LiveSink κ β}
  {isCancelled : Nat → Bool}

/-- The source answers with a head. -/
def HeadRead (source : LiveSource σ ε β) (s : σ) : Prop :=
  ∃ head s', exec source.currentHead s = (.ok head, s')

theorem callHead_reads (s : Locals × Peers σ κ) :
    wp (callSource source source.currentHead) (fun _ _ => HeadRead source s.2.source)
      (fun _ _ => True) s := by
  unfold callSource onPeers onSource
  refine wp_zoom (wp_mapError (wp_zoom ?_))
  cases hx : exec source.currentHead s.2.source with
  | mk r s' =>
    refine wp_of_eq hx (fun head hr => ?_) (fun _ _ => trivial)
    rw [hr] at hx
    exact ⟨head, s', hx⟩

theorem trackHead_reads (s : Locals × Peers σ κ) :
    wp (trackHead config source sink isCancelled) (fun _ _ => HeadRead source s.2.source)
      (fun _ _ => True) s := by
  unfold trackHead
  rw [wp_bind]
  refine wp_mono (record_returns .getBlockByNumber s) (fun _ s1 h1 => ?_) (fun _ _ _ => trivial)
  rw [wp_bind]
  refine wp_mono (callHead_reads s1) (fun head s2 hread => ?_) (fun _ _ _ => trivial)
  rw [h1.1] at hread
  exact wp_const hread

/-- A reconciliation that returns asked the source for its head first, and got one. -/
theorem run_reads_head {events : List LiveHeadEvent} {p p' : Peers σ κ} {report : LiveReport}
    (h : exec (runWithCancellation config source sink isCancelled events) p = (.ok report, p')) :
    HeadRead source p.source := by
  have hwp : wp (runWithCancellation config source sink isCancelled events)
      (fun _ _ => HeadRead source p.source) (fun _ _ => True) p :=
    runWithCancellation_rule (fun _ => trivial) (fun _ _ => trivial) fun _ _ _ => trackHead_reads _
  exact wp_ok hwp h

end

end Chainweave.Wakeup
