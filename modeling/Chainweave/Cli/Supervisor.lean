import Chainweave.Cli.LiveRuntime
import Chainweave.Lib.Run
import Mathlib.Logic.Function.Basic

/-!
# The supervisor of live mode

`crates/chainweave-cli/src/live_runtime.rs`: `LiveTaskSupervisor` and the four tasks
that `run_live` gives it, in any interleaving with each other and with the signal.

* `Pc`: where a task is. At its `select!` it may take the shutdown branch; away from it
  (the tracker reconciles, the wakeup task pauses) it does not look.
* `Phase`: `run_until_first_exit`. `join_next` hands over any task that has exited, and
  the shutdown is looked at after that.
* `Sound`: what every step keeps in live mode; `Supervised`: over any tasks.
  `exit_verdict`: what the supervisor answers.
* `Cooperative` steps need nothing from outside: `winds_down`, under a shutdown each of
  them gets nearer to the end, and one is there until the supervisor has returned.

A task of the set is never aborted, and its panic is caught, so `join_next` has no error
to hand over. The receiver of wakeups outlives its tasks' senders: `run_live` has one.
-/
namespace Chainweave.Supervisor

open Chainweave.Runtime

abbrev TaskResult := Except LiveTaskError Unit

/-! ## Tasks -/

/-- How a future ends. -/
inductive Ending where
  | returned (result : TaskResult)
  | panicked

/-- What a task of the set ends with.
mirrors crates/chainweave-cli/src/live_runtime.rs:1609-1621 -/
def spawn (task : LiveTask) : Ending → TaskResult
  | .returned result => result
  | .panicked => .error (.taskPanicked task)

/-- Where a task of the set is. -/
inductive Pc where
  /-- at its `select!` -/
  | selecting
  | away
  | exited (result : TaskResult)

/-- How the `JoinHandle` of `spawn_new_heads_wakeup` ends; the subscription itself only ever fails.
mirrors crates/chainweave-rpc/src/subscription.rs:44-69 -/
inductive SubscriptionEnd where
  | failed (error : String)
  | cancelled
  | panicked
  | other (message : String)

/-- After the subscription: a pause, or the end of the task.
mirrors crates/chainweave-cli/src/live_runtime.rs:748-766 -/
def afterSubscription : SubscriptionEnd → Pc
  | .failed _ => .away
  | .cancelled => .exited (.error (.taskCancelled .wakeups))
  | .panicked => .exited (.error (.taskPanicked .wakeups))
  | .other message => .exited (.error (.webSocketTransient message))

/-- `observability.serve()` has ended.
mirrors crates/chainweave-cli/src/live_runtime.rs:723-733 -/
def afterServe (result : Except String Unit) : Pc :=
  .exited (result.mapError (.taskFailed .healthServer))

/-- What the shutdown branch ends with; the tracker publishes a last status.
mirrors crates/chainweave-cli/src/live_runtime.rs:728, 743-747, 781, 817-831 -/
def shutdownResult (published : TaskResult) : LiveTask → TaskResult
  | .tracker => published
  | .healthServer => .ok ()
  | .wakeups => .ok ()
  | .poll => .ok ()

/-- A reconciliation has ended: back at the `select!`, or the task fails. -/
def afterReconciliation : TaskResult → Pc
  | .ok _ => .selecting
  | .error error => .exited (.error error)

/-- Where the tasks begin; the tracker reconciles first. -/
def firstPc : LiveTask → Pc
  | .tracker => .away
  | .healthServer => .selecting
  | .wakeups => .selecting
  | .poll => .selecting

/-! ## The supervisor -/

/-- mirrors crates/chainweave-cli/src/live_runtime.rs:1636-1640 -/
def firstResult (isCancelled : Bool) (task : LiveTask) : TaskResult → TaskResult
  | .ok _ => if isCancelled then .ok () else .error (.taskExitedEarly task)
  | .error error => .error error

/-- Where `run_until_first_exit` is. -/
inductive Phase where
  | waiting
  | joined (task : LiveTask) (result : TaskResult)
  | draining (result : TaskResult)
  | returned (result : TaskResult)

/-- What the supervisor decided on. -/
structure FirstExit where
  task : LiveTask
  result : TaskResult
  isCancelled : Bool

structure System where
  /-- the `CancellationToken` -/
  shutdown : Bool
  /-- the tasks that were not joined yet -/
  tasks : LiveTask → Option Pc
  phase : Phase
  /-- ghost: SIGINT or SIGTERM has come -/
  signalled : Bool
  /-- ghost: the exit that was joined first -/
  first : Option FirstExit

/-- `run_live` before it waits; the wakeup task is there for a WebSocket endpoint only.
mirrors crates/chainweave-cli/src/live_runtime.rs:549-555, 651-688 -/
def System.start (isWsUrl : Bool) : System where
  shutdown := false
  tasks task := if task = .wakeups ∧ isWsUrl = false then none else some (firstPc task)
  phase := .waiting
  signalled := false
  first := none

def System.setTask (s : System) (task : LiveTask) (pc : Option Pc) : System :=
  { s with tasks := Function.update s.tasks task pc }

/-- No task is left in the set. -/
def System.isEmpty (s : System) : Bool :=
  (s.tasks .healthServer).isNone && (s.tasks .wakeups).isNone && (s.tasks .poll).isNone &&
    (s.tasks .tracker).isNone

inductive Label where
  /-- SIGINT or SIGTERM -/
  | signal
  /-- a task takes the shutdown branch -/
  | shutdown (task : LiveTask) (published : TaskResult)
  /-- the pause of the wakeup task is over -/
  | slept
  /-- a reconciliation of the tracker ends -/
  | reconciled (outcome : TaskResult)
  /-- the tracker takes a wakeup -/
  | wakeup
  | subscription (ending : SubscriptionEnd)
  | served (result : Except String Unit)
  | panic (task : LiveTask)
  /-- `join_next` hands over a task that exited -/
  | join (task : LiveTask)
  /-- the supervisor's own next statement -/
  | proceed

/-- A task that is at `pc` goes on to another one. -/
def System.move (s : System) (task : LiveTask) (pc next : Pc) : Option System :=
  match s.tasks task, pc with
  | some .selecting, .selecting => some (s.setTask task (some next))
  | some .away, .away => some (s.setTask task (some next))
  | _, _ => none

/-- `join_next` hands over the first exit, and later, while draining, all others.
mirrors crates/chainweave-cli/src/live_runtime.rs:1630-1650 -/
def System.join (s : System) (task : LiveTask) : Option System :=
  match s.phase, s.tasks task with
  | .waiting, some (.exited result) =>
    some { s.setTask task none with phase := .joined task result }
  | .draining _, some (.exited _) => some (s.setTask task none)
  | _, _ => none

/-- mirrors crates/chainweave-cli/src/live_runtime.rs:1630-1652 -/
def System.proceed (s : System) : Option System :=
  match s.phase with
  | .waiting => if s.isEmpty then some { s with phase := .returned (.ok ()) } else none
  | .joined task result =>
    some { s with
      phase := .draining (firstResult s.shutdown task result)
      shutdown := true
      first := some ⟨task, result, s.shutdown⟩ }
  | .draining result => if s.isEmpty then some { s with phase := .returned result } else none
  | .returned _ => none

def step (s : System) : Label → Option System
  | .signal => some { s with shutdown := true, signalled := true }
  | .shutdown task published =>
    if s.shutdown then s.move task .selecting (.exited (shutdownResult published task)) else none
  | .slept => s.move .wakeups .away .selecting
  | .reconciled outcome => s.move .tracker .away (afterReconciliation outcome)
  | .wakeup => s.move .tracker .selecting .away
  | .subscription ending => s.move .wakeups .selecting (afterSubscription ending)
  | .served result => s.move .healthServer .selecting (afterServe result)
  | .panic task =>
    let pc := Pc.exited (spawn task .panicked)
    (s.move task .selecting pc).or (s.move task .away pc)
  | .join task => s.join task
  | .proceed => s.proceed

def run (s : System) (labels : List Label) : Option System := labels.foldlM step s

/-! ## What a step does -/

section
variable {s s' : System}

theorem move_ok {task : LiveTask} {pc next : Pc} (h : s.move task pc next = some s') :
    (s.tasks task = some .selecting ∨ s.tasks task = some .away) ∧ s' = s.setTask task (some next) := by
  unfold System.move at h
  split at h
  · rename_i hpc
    cases h
    exact ⟨.inl hpc, rfl⟩
  · rename_i hpc
    cases h
    exact ⟨.inr hpc, rfl⟩
  · cases h

/-- A task that exits without an error does so under a shutdown, but for the health server. -/
def CleanExit (shutdown : Bool) (task : LiveTask) (pc : Pc) : Prop :=
  pc = .exited (.ok ()) → task ≠ .healthServer → shutdown = true

/-- Only these two tasks are ever away from their `select!`. -/
def MayBeAway (task : LiveTask) (pc : Pc) : Prop := pc = .away → task = .wakeups ∨ task = .tracker

/-- What a step does: the signal, a task, or the supervisor. -/
inductive Does (s : System) : System → Prop
  | signal : Does s { s with shutdown := true, signalled := true }
  | task {task : LiveTask} {next : Pc} (there : (s.tasks task).isSome = true)
      (clean : CleanExit s.shutdown task next) (away : MayBeAway task next) :
    Does s (s.setTask task (some next))
  | first {task : LiveTask} {result : TaskResult} (phase : s.phase = .waiting)
      (pc : s.tasks task = some (.exited result)) :
    Does s { s.setTask task none with phase := .joined task result }
  | drain {task : LiveTask} {result verdict : TaskResult} (phase : s.phase = .draining verdict)
      (pc : s.tasks task = some (.exited result)) : Does s (s.setTask task none)
  | nothing (phase : s.phase = .waiting) (empty : s.isEmpty = true) :
    Does s { s with phase := .returned (.ok ()) }
  | decide {task : LiveTask} {result : TaskResult} (phase : s.phase = .joined task result) :
    Does s { s with
      phase := .draining (firstResult s.shutdown task result)
      shutdown := true
      first := some ⟨task, result, s.shutdown⟩ }
  | finish {verdict : TaskResult} (phase : s.phase = .draining verdict) (empty : s.isEmpty = true) :
    Does s { s with phase := .returned verdict }

theorem does_move {task : LiveTask} {pc next : Pc} (clean : CleanExit s.shutdown task next)
    (away : MayBeAway task next) (h : s.move task pc next = some s') : Does s s' := by
  obtain ⟨hpc, rfl⟩ := move_ok h
  refine .task ?_ clean away
  cases hpc with
  | inl hpc => rw [hpc]; rfl
  | inr hpc => rw [hpc]; rfl

theorem step_does {label : Label} (h : step s label = some s') : Does s s' := by
  cases label with
  | signal =>
    cases h
    exact .signal
  | shutdown task published =>
    simp only [step] at h
    split at h
    · rename_i hshutdown
      exact does_move (fun _ _ => hshutdown) (fun haway => by cases haway) h
    · cases h
  | slept => exact does_move (fun hexit => by cases hexit) (fun haway => by cases haway) h
  | reconciled outcome =>
    refine does_move (fun hexit => ?_) (fun _ => .inr rfl) h
    cases outcome with
    | ok => cases hexit
    | error => cases hexit
  | wakeup => exact does_move (fun hexit => by cases hexit) (fun _ => .inr rfl) h
  | subscription ending =>
    refine does_move (fun hexit => ?_) (fun _ => .inl rfl) h
    cases ending with
    | failed => cases hexit
    | cancelled => cases hexit
    | panicked => cases hexit
    | other => cases hexit
  | served result => exact does_move (fun _ hne => absurd rfl hne) (fun haway => by cases haway) h
  | panic task =>
    cases Option.or_eq_some_iff.1 h with
    | inl h => exact does_move (fun hexit => by cases hexit) (fun haway => by cases haway) h
    | inr h => exact does_move (fun hexit => by cases hexit) (fun haway => by cases haway) h.2
  | join task =>
    simp only [step, System.join] at h
    split at h
    · rename_i hphase hpc
      cases h
      exact .first hphase hpc
    · rename_i hphase hpc
      cases h
      exact .drain hphase hpc
    · cases h
  | proceed =>
    simp only [step, System.proceed] at h
    split at h
    · rename_i hphase
      split at h
      · rename_i hempty
        cases h
        exact .nothing hphase hempty
      · cases h
    · rename_i hphase
      cases h
      exact .decide hphase
    · rename_i hphase
      split at h
      · rename_i hempty
        cases h
        exact .finish hphase hempty
      · cases h
    · cases h

/-! ## The invariant -/

/-- What the supervisor decided, and what it knew. -/
structure Decided (s : System) (f : FirstExit) (verdict : TaskResult) : Prop where
  verdict : verdict = firstResult f.isCancelled f.task f.result
  shutdown : s.shutdown = true
  signalled : f.isCancelled = true → s.signalled = true
  clean : CleanExit f.isCancelled f.task (.exited f.result)

/-- What holds in each phase: before the decision only the signal shuts down. -/
def System.PhaseSound (s : System) : Phase → Prop
  | .waiting => (s.shutdown = true → s.signalled = true) ∧ (s.tasks .healthServer).isSome = true
  | .joined task result =>
    (s.shutdown = true → s.signalled = true) ∧ CleanExit s.shutdown task (.exited result)
  | .draining verdict => ∃ f, s.first = some f ∧ Decided s f verdict
  | .returned verdict => s.isEmpty = true ∧ ∃ f, s.first = some f ∧ Decided s f verdict

/-- **The invariant.** -/
structure Sound (s : System) : Prop where
  clean : ∀ task pc, s.tasks task = some pc → CleanExit s.shutdown task pc
  away : ∀ task pc, s.tasks task = some pc → MayBeAway task pc
  phase : s.PhaseSound s.phase

theorem isEmpty_iff : s.isEmpty = true ↔ ∀ task, s.tasks task = none := by
  simp only [System.isEmpty, Bool.and_eq_true, Option.isNone_iff_eq_none]
  constructor
  · intro h task
    obtain ⟨⟨⟨hserver, hwakeups⟩, hpoll⟩, htracker⟩ := h
    cases task with
    | healthServer => exact hserver
    | wakeups => exact hwakeups
    | poll => exact hpoll
    | tracker => exact htracker
  · intro h
    exact ⟨⟨⟨h _, h _⟩, h _⟩, h _⟩

theorem CleanExit.mono {task : LiveTask} {pc : Pc} {shutdown shutdown' : Bool}
    (h : CleanExit shutdown task pc) (himp : shutdown = true → shutdown' = true) :
    CleanExit shutdown' task pc := fun hexit hne => himp (h hexit hne)

theorem setTask_eq {task other : LiveTask} {pc : Option Pc} {pc' : Pc}
    (h : (s.setTask task pc).tasks other = some pc') :
    other = task ∧ pc = some pc' ∨ s.tasks other = some pc' := by
  simp only [System.setTask, Function.update_apply] at h
  split at h
  · rename_i hsame
    exact .inl ⟨hsame, h⟩
  · exact .inr h

theorem start_sound (isWsUrl : Bool) : Sound (System.start isWsUrl) := by
  have hpc : ∀ task pc, (System.start isWsUrl).tasks task = some pc → pc = firstPc task := by
    intro task pc hpc
    simp only [System.start] at hpc
    split at hpc
    · cases hpc
    · exact (Option.some.inj hpc).symm
  refine ⟨fun task pc htask hexit => ?_, fun task pc htask haway => ?_, ?_⟩
  · rw [hpc task pc htask] at hexit
    cases task with
    | healthServer => cases hexit
    | wakeups => cases hexit
    | poll => cases hexit
    | tracker => cases hexit
  · rw [hpc task pc htask] at haway
    cases task with
    | healthServer => cases haway
    | wakeups => cases haway
    | poll => cases haway
    | tracker => exact .inr rfl
  · simp [System.PhaseSound, System.start]

theorem Sound.task (h : Sound s) {task : LiveTask} {next : Pc} (hthere : (s.tasks task).isSome = true)
    (hclean : CleanExit s.shutdown task next) (haway : MayBeAway task next) :
    Sound (s.setTask task (some next)) := by
  refine ⟨fun other pc hpc => ?_, fun other pc hpc => ?_, ?_⟩
  · cases setTask_eq hpc with
    | inl hsame =>
      obtain ⟨rfl, hnext⟩ := hsame
      cases hnext
      exact hclean
    | inr hpc => exact h.clean other pc hpc
  · cases setTask_eq hpc with
    | inl hsame =>
      obtain ⟨rfl, hnext⟩ := hsame
      cases hnext
      exact haway
    | inr hpc => exact h.away other pc hpc
  · have hphase := h.phase
    show (s.setTask task (some next)).PhaseSound s.phase
    cases hp : s.phase with
    | waiting =>
      rw [hp] at hphase
      refine ⟨hphase.1, ?_⟩
      simp only [System.setTask, Function.update_apply]
      split
      · rfl
      · exact hphase.2
    | joined => rw [hp] at hphase; exact hphase
    | draining =>
      rw [hp] at hphase
      obtain ⟨f, hf, hdecided⟩ := hphase
      exact ⟨f, hf, hdecided.verdict, hdecided.shutdown, hdecided.signalled, hdecided.clean⟩
    | returned =>
      -- The supervisor has returned, so no task is there to go on.
      rw [hp] at hphase
      rw [isEmpty_iff.1 hphase.1 task] at hthere
      cases hthere

/-- A task was joined. -/
theorem setTask_none {task other : LiveTask} {pc : Pc}
    (h : (s.setTask task none).tasks other = some pc) : s.tasks other = some pc := by
  cases setTask_eq h with
  | inl hsame => cases hsame.2
  | inr h => exact h

/-- **Every step keeps the invariant.** -/
theorem Does.keeps (hs : Does s s') (h : Sound s) : Sound s' := by
  have hphase := h.phase
  cases hs with
  | signal =>
    refine ⟨fun task pc hpc => (h.clean task pc hpc).mono fun _ => rfl, h.away, ?_⟩
    show System.PhaseSound _ s.phase
    cases hp : s.phase with
    | waiting => rw [hp] at hphase; exact ⟨fun _ => rfl, hphase.2⟩
    | joined => rw [hp] at hphase; exact ⟨fun _ => rfl, hphase.2.mono fun _ => rfl⟩
    | draining =>
      rw [hp] at hphase
      obtain ⟨f, hf, hdecided⟩ := hphase
      exact ⟨f, hf, hdecided.verdict, rfl, fun _ => rfl, hdecided.clean⟩
    | returned =>
      rw [hp] at hphase
      obtain ⟨hempty, f, hf, hdecided⟩ := hphase
      exact ⟨hempty, f, hf, hdecided.verdict, rfl, fun _ => rfl, hdecided.clean⟩
  | task hthere hclean haway => exact h.task hthere hclean haway
  | @first task result hp hpc =>
    rw [hp] at hphase
    exact ⟨fun other pc hother => h.clean other pc (setTask_none hother),
      fun other pc hother => h.away other pc (setTask_none hother), hphase.1, h.clean task _ hpc⟩
  | @drain task result verdict hp hpc =>
    rw [hp] at hphase
    refine ⟨fun other pc hother => h.clean other pc (setTask_none hother),
      fun other pc hother => h.away other pc (setTask_none hother), ?_⟩
    show (s.setTask task none).PhaseSound s.phase
    rw [hp]
    obtain ⟨f, hf, hdecided⟩ := hphase
    exact ⟨f, hf, hdecided.verdict, hdecided.shutdown, hdecided.signalled, hdecided.clean⟩
  | nothing hp hempty =>
    -- The health server is there until it is joined.
    rw [hp] at hphase
    have hserver := hphase.2
    rw [isEmpty_iff.1 hempty .healthServer] at hserver
    cases hserver
  | @decide task result hp =>
    rw [hp] at hphase
    refine ⟨fun other pc hother => (h.clean other pc hother).mono fun _ => rfl, h.away, ?_⟩
    exact ⟨_, rfl, rfl, rfl, hphase.1, hphase.2⟩
  | finish hp hempty =>
    rw [hp] at hphase
    refine ⟨h.clean, h.away, hempty, ?_⟩
    obtain ⟨f, hf, hdecided⟩ := hphase
    exact ⟨f, hf, hdecided.verdict, hdecided.shutdown, hdecided.signalled, hdecided.clean⟩

theorem run_sound (h : Sound s) {labels : List Label} (hrun : run s labels = some s') : Sound s' :=
  Run.keeps (fun _ _ _ h hs => (step_does hs).keeps h) h hrun

end

/-! ## Any tasks -/

/-- The exit that was joined first decides. -/
structure Verdict (f : FirstExit) (result : TaskResult) : Prop where
  failed : ∀ error, f.result = .error error → result = .error error
  stopped : f.result = .ok () → f.isCancelled = true → result = .ok ()
  early : f.result = .ok () → f.isCancelled = false → result = .error (.taskExitedEarly f.task)

theorem verdict_firstResult (f : FirstExit) :
    Verdict f (firstResult f.isCancelled f.task f.result) := by
  refine ⟨fun error herror => ?_, fun hok hcancelled => ?_, fun hok hcancelled => ?_⟩
  · rw [herror]
    rfl
  · rw [hok, hcancelled]
    rfl
  · rw [hok, hcancelled]
    rfl

/-- What holds in each phase, whatever the tasks are and come to. -/
def System.PhaseSupervised (s : System) : Phase → Prop
  | .waiting => ∃ task, (s.tasks task).isSome = true
  | .joined _ _ => True
  | .draining verdict => s.shutdown = true ∧ ∃ f, s.first = some f ∧ Verdict f verdict
  | .returned verdict =>
    s.isEmpty = true ∧ s.shutdown = true ∧ ∃ f, s.first = some f ∧ Verdict f verdict

def Supervised (s : System) : Prop := s.PhaseSupervised s.phase

section
variable {s s' : System}

theorem Supervised.task (h : Supervised s) {task : LiveTask} (pc : Pc)
    (hthere : (s.tasks task).isSome = true) : Supervised (s.setTask task (some pc)) := by
  unfold Supervised at h ⊢
  show System.PhaseSupervised _ s.phase
  cases hp : s.phase with
  | waiting => exact ⟨task, by simp [System.setTask]⟩
  | joined => trivial
  | draining =>
    rw [hp] at h
    exact h
  | returned =>
    rw [hp] at h
    rw [isEmpty_iff.1 h.1 task] at hthere
    cases hthere

theorem Does.supervises (hs : Does s s') (h : Supervised s) : Supervised s' := by
  have hphase := h
  unfold Supervised at hphase
  cases hs with
  | signal =>
    unfold Supervised
    show System.PhaseSupervised _ s.phase
    cases hp : s.phase with
    | waiting =>
      rw [hp] at hphase
      exact hphase
    | joined => trivial
    | draining =>
      rw [hp] at hphase
      exact ⟨rfl, hphase.2⟩
    | returned =>
      rw [hp] at hphase
      exact ⟨hphase.1, rfl, hphase.2.2⟩
  | @task task next hthere => exact h.task next hthere
  | first => trivial
  | @drain task result verdict hp =>
    rw [hp] at hphase
    unfold Supervised
    show System.PhaseSupervised _ s.phase
    rw [hp]
    exact hphase
  | nothing hp hempty =>
    rw [hp] at hphase
    obtain ⟨task, hthere⟩ := hphase
    rw [isEmpty_iff.1 hempty task] at hthere
    cases hthere
  | @decide task result hp => exact ⟨rfl, _, rfl, verdict_firstResult ⟨task, result, s.shutdown⟩⟩
  | finish hp hempty =>
    rw [hp] at hphase
    exact ⟨hempty, hphase⟩

theorem run_supervised (h : Supervised s) {labels : List Label} (hrun : run s labels = some s') :
    Supervised s' :=
  Run.keeps (fun _ _ _ h hs => (step_does hs).supervises h) h hrun

end

/-- **What live mode ends with.** However the tasks, the signal and the supervisor interleave, from any
tasks that it has: when the supervisor returns, it has shut down and joined every task, and the exit
it joined first decides. An error is its result, an exit without one is a success after the shutdown
and the failure of that task before it. In live mode only a signal brings the shutdown before the
decision, and only the health server comes to an early exit without an error. -/
theorem exit_verdict {start : System} (hwaiting : start.phase = .waiting)
    (hsome : start.isEmpty = false) (labels : List Label) {s : System} {result : TaskResult}
    (hrun : run start labels = some s) (hreturned : s.phase = .returned result) :
    (s.shutdown = true ∧ ∀ task, s.tasks task = none) ∧
      ∃ f, s.first = some f ∧ Verdict f result ∧
        (∀ isWsUrl, start = .start isWsUrl → (f.isCancelled = true → s.signalled = true) ∧
          (f.result = .ok () → f.isCancelled = false → f.task = .healthServer)) := by
  have hstart : Supervised start := by
    unfold Supervised
    rw [hwaiting]
    by_contra hnone
    refine Bool.false_ne_true (hsome.symm.trans (isEmpty_iff.2 fun task => ?_))
    simpa using fun hthere => hnone ⟨task, hthere⟩
  have h := run_supervised hstart hrun
  unfold Supervised at h
  rw [hreturned] at h
  obtain ⟨hempty, hshutdown, f, hf, hverdict⟩ := h
  refine ⟨⟨hshutdown, isEmpty_iff.1 hempty⟩, f, hf, hverdict, fun isWsUrl hlive => ?_⟩
  rw [hlive] at hrun
  have hphase := (run_sound (start_sound isWsUrl) hrun).phase
  rw [hreturned] at hphase
  obtain ⟨-, f', hf', hdecided⟩ := hphase
  obtain rfl : f = f' := Option.some.inj (hf.symm.trans hf')
  refine ⟨hdecided.signalled, fun hok hcancelled => ?_⟩
  by_contra hne
  have := hdecided.clean (by rw [hok]) hne
  rw [hcancelled] at this
  cases this

/-- A signal comes while the tracker reconciles. The poll task is joined first; the tracker, which was
cancelled, fails later. -/
def signalLabels : List Label :=
  [.signal, .shutdown .poll (.ok ()), .join .poll, .reconciled (.error (.taskCancelled .tracker)),
    .proceed, .join .tracker, .shutdown .healthServer (.ok ()), .join .healthServer, .proceed]

/-- Nobody has sent a signal, and the server has ended. -/
def servedLabels : List Label :=
  [.served (.ok ()), .join .healthServer, .proceed, .shutdown .poll (.ok ()), .join .poll,
    .reconciled (.ok ()), .shutdown .tracker (.ok ()), .join .tracker, .proceed]

/-- A poll task that has ended without an error. -/
def endedPoll : System := (System.start false).setTask .poll (some (.exited (.ok ())))

def endedPollLabels : List Label :=
  [.join .poll, .reconciled (.ok ()), .proceed, .shutdown .healthServer (.ok ()),
    .shutdown .tracker (.ok ()), .join .tracker, .join .healthServer, .proceed]

/-- `exit_verdict` for these steps. -/
theorem exit_verdict_signal :
    (∃ s, run (.start false) signalLabels = some s ∧ s.phase = .returned (.ok ()) ∧
      s.signalled = true) ∧
    (∃ s, run (.start false) servedLabels = some s ∧
      s.phase = .returned (.error (.taskExitedEarly .healthServer)) ∧ s.signalled = false ∧
      ∃ f, s.first = some f ∧ f.task = .healthServer) ∧
    ∃ s, run endedPoll endedPollLabels = some s ∧
      s.phase = .returned (.error (.taskExitedEarly .poll)) ∧
      ∃ f, s.first = some f ∧ Verdict f (.error (.taskExitedEarly .poll)) := by
  refine ⟨?_, ?_, ?_⟩
  · have hrun : run (.start false) signalLabels = some _ := rfl
    obtain ⟨f, hf, -, hlive⟩ := (exit_verdict rfl rfl signalLabels hrun rfl).2
    cases hf
    exact ⟨_, hrun, rfl, (hlive false rfl).1 rfl⟩
  · have hrun : run (.start false) servedLabels = some _ := rfl
    obtain ⟨f, hf, -, hlive⟩ := (exit_verdict rfl rfl servedLabels hrun rfl).2
    refine ⟨_, hrun, rfl, rfl, f, hf, ?_⟩
    cases hf
    exact (hlive false rfl).2 rfl rfl
  · have hrun : run endedPoll endedPollLabels = some _ := rfl
    obtain ⟨f, hf, hverdict, -⟩ := (exit_verdict rfl rfl endedPollLabels hrun rfl).2
    exact ⟨_, hrun, rfl, f, hf, hverdict⟩

/-! ## Winding down -/

/-- Steps that need nothing from outside: a task that sees the shutdown or comes back to its `select!`,
and the supervisor. -/
def Cooperative : Label → Prop
  | .shutdown _ _ => True
  | .slept => True
  | .reconciled _ => True
  | .join _ => True
  | .proceed => True
  | .signal => False
  | .wakeup => False
  | .subscription _ => False
  | .served _ => False
  | .panic _ => False

/-- How many steps a task has left. -/
def Pc.remaining : Pc → Nat
  | .away => 3
  | .selecting => 2
  | .exited _ => 1

/-- How many steps the supervisor has left, joins apart. -/
def Phase.remaining : Phase → Nat
  | .waiting => 3
  | .joined _ _ => 2
  | .draining _ => 1
  | .returned _ => 0

def taskRemaining (s : System) (task : LiveTask) : Nat := ((s.tasks task).map Pc.remaining).getD 0

def System.remaining (s : System) : Nat :=
  taskRemaining s .healthServer + taskRemaining s .wakeups + taskRemaining s .poll +
    taskRemaining s .tracker + s.phase.remaining

section
variable {s s' : System}

theorem remaining_setTask (s : System) (task : LiveTask) (pc : Option Pc) :
    (s.setTask task pc).remaining + taskRemaining s task =
      s.remaining + (pc.map Pc.remaining).getD 0 := by
  have hsame : taskRemaining (s.setTask task pc) task = (pc.map Pc.remaining).getD 0 := by
    simp [taskRemaining, System.setTask]
  have hother : ∀ other, other ≠ task → taskRemaining (s.setTask task pc) other = taskRemaining s other := by
    intro other hne
    simp [taskRemaining, System.setTask, Function.update_of_ne hne]
  have hphase : (s.setTask task pc).phase = s.phase := rfl
  unfold System.remaining
  rw [hphase]
  cases task with
  | healthServer =>
    rw [hsame, hother .wakeups (by decide), hother .poll (by decide), hother .tracker (by decide)]
    omega
  | wakeups =>
    rw [hsame, hother .healthServer (by decide), hother .poll (by decide), hother .tracker (by decide)]
    omega
  | poll =>
    rw [hsame, hother .healthServer (by decide), hother .wakeups (by decide),
      hother .tracker (by decide)]
    omega
  | tracker =>
    rw [hsame, hother .healthServer (by decide), hother .wakeups (by decide), hother .poll (by decide)]
    omega

theorem move_decreases {task : LiveTask} {pc next : Pc} (h : s.move task pc next = some s')
    (hlt : next.remaining < pc.remaining) : s'.remaining < s.remaining := by
  have hmove : taskRemaining s task = pc.remaining ∧ s' = s.setTask task (some next) := by
    unfold System.move at h
    split at h
    · rename_i hpc
      cases h
      exact ⟨by simp [taskRemaining, hpc], rfl⟩
    · rename_i hpc
      cases h
      exact ⟨by simp [taskRemaining, hpc], rfl⟩
    · cases h
  obtain ⟨htask, rfl⟩ := hmove
  have hset := remaining_setTask s task (some next)
  simp only [Option.map_some, Option.getD_some] at hset
  omega

theorem join_decreases {task : LiveTask} (h : s.join task = some s') : s'.remaining < s.remaining := by
  have hjoined : ∀ {result}, s.tasks task = some (.exited result) →
      (s.setTask task none).remaining + 1 = s.remaining := by
    intro result hpc
    have hset := remaining_setTask s task none
    have htask : taskRemaining s task = 1 := by simp [taskRemaining, hpc, Pc.remaining]
    rw [htask, Option.map_none, Option.getD_none] at hset
    exact hset
  unfold System.join at h
  split at h
  · rename_i hphase hpc
    cases h
    have hlt := hjoined hpc
    have hset : (s.setTask task none).phase = .waiting := hphase
    simp only [System.remaining, hset] at hlt ⊢
    simp only [taskRemaining, Phase.remaining] at hlt ⊢
    omega
  · rename_i hphase hpc
    cases h
    have hlt := hjoined hpc
    omega
  · cases h

theorem proceed_decreases (h : s.proceed = some s') : s'.remaining < s.remaining := by
  have hphase : ∀ next : System, next.tasks = s.tasks → next.phase.remaining < s.phase.remaining →
      next.remaining < s.remaining := by
    intro next htasks hlt
    simp only [System.remaining, taskRemaining, htasks]
    omega
  unfold System.proceed at h
  split at h
  · rename_i hwaiting
    split at h
    · cases h
      exact hphase _ rfl (by rw [hwaiting]; exact Nat.zero_lt_succ 2)
    · cases h
  · rename_i hjoined
    cases h
    exact hphase _ rfl (by rw [hjoined]; exact Nat.one_lt_two)
  · rename_i hdraining
    split at h
    · cases h
      exact hphase _ rfl (by rw [hdraining]; exact Nat.zero_lt_one)
    · cases h
  · cases h

/-- **Each cooperative step gets nearer to the end.** -/
theorem cooperative_decreases {label : Label} (hc : Cooperative label) (h : step s label = some s') :
    s'.remaining < s.remaining := by
  cases label with
  | shutdown task published =>
    simp only [step] at h
    split at h
    · exact move_decreases h (by simp [Pc.remaining])
    · cases h
  | slept => exact move_decreases h (by simp [Pc.remaining])
  | reconciled outcome =>
    refine move_decreases h ?_
    cases outcome with
    | ok => simp [afterReconciliation, Pc.remaining]
    | error => simp [afterReconciliation, Pc.remaining]
  | join task => exact join_decreases h
  | proceed => exact proceed_decreases h
  | signal => cases hc
  | wakeup => cases hc
  | subscription => cases hc
  | served => cases hc
  | panic => cases hc

/-- The shutdown stays. -/
theorem Does.shutdown (hs : Does s s') (h : s.shutdown = true) : s'.shutdown = true := by
  cases hs with
  | signal => rfl
  | decide => rfl
  | _ => exact h

/-- A task that is there has a cooperative step of its own, or can be joined. -/
theorem task_goes_on (hshutdown : s.shutdown = true)
    (hjoins : s.phase = .waiting ∨ ∃ v, s.phase = .draining v)
    {task : LiveTask} (hthere : (s.tasks task).isSome = true)
    (hpc : s.tasks task = some .away → task = .wakeups ∨ task = .tracker)
    (published outcome : TaskResult) :
    ∃ label ∈ [Label.shutdown task published, .slept, .reconciled outcome, .join task],
      (step s label).isSome = true := by
  obtain ⟨pc, hpcs⟩ := Option.isSome_iff_exists.1 hthere
  cases pc with
  | selecting =>
    refine ⟨.shutdown task published, by simp, ?_⟩
    simp [step, hshutdown, System.move, hpcs]
  | away =>
    cases hpc hpcs with
    | inl hwakeups =>
      subst hwakeups
      exact ⟨.slept, by simp, by simp [step, System.move, hpcs]⟩
    | inr htracker =>
      subst htracker
      exact ⟨.reconciled outcome, by simp, by simp [step, System.move, hpcs]⟩
  | exited result =>
    refine ⟨.join task, by simp, ?_⟩
    cases hjoins with
    | inl hphase => simp [step, System.join, hphase, hpcs]
    | inr hphase =>
      obtain ⟨v, hphase⟩ := hphase
      simp [step, System.join, hphase, hpcs]

/-- Under a shutdown there is a cooperative step, until the supervisor has returned. -/
theorem cooperative_enabled (h : Sound s) (hshutdown : s.shutdown = true)
    (hphase : ∀ result, s.phase ≠ .returned result) (published outcome : TaskResult) :
    ∃ label, Cooperative label ∧ (step s label).isSome = true := by
  have hset : s.phase = .waiting ∨ (∃ v, s.phase = .draining v) →
      ∃ label, Cooperative label ∧ (step s label).isSome = true := by
    intro hjoins
    by_cases hempty : s.isEmpty = true
    · refine ⟨.proceed, trivial, ?_⟩
      cases hjoins with
      | inl hwaiting => simp [step, System.proceed, hwaiting, hempty]
      | inr hdraining =>
        obtain ⟨v, hdraining⟩ := hdraining
        simp [step, System.proceed, hdraining, hempty]
    · have hthere : ∃ task, (s.tasks task).isSome = true := by
        by_contra hnone
        exact hempty (isEmpty_iff.2 fun task => by simpa using fun hsome => hnone ⟨task, hsome⟩)
      obtain ⟨task, htask⟩ := hthere
      obtain ⟨label, hlabel, hstep⟩ := task_goes_on hshutdown hjoins htask
        (fun haway => h.away task _ haway rfl) published outcome
      refine ⟨label, ?_, hstep⟩
      simp only [List.mem_cons, List.not_mem_nil, or_false] at hlabel
      rcases hlabel with rfl | rfl | rfl | rfl
      · trivial
      · trivial
      · trivial
      · trivial
  cases hp : s.phase with
  | waiting => exact hset (.inl hp)
  | draining v => exact hset (.inr ⟨v, hp⟩)
  | joined task result => exact ⟨.proceed, trivial, by simp [step, System.proceed, hp]⟩
  | returned result => exact absurd hp (hphase result)

/-- Cooperative steps, one after the other. -/
theorem cooperative_run {labels : List Label} (hc : ∀ label ∈ labels, Cooperative label)
    (hrun : run s labels = some s') : labels.length + s'.remaining ≤ s.remaining := by
  unfold run at hrun
  induction labels generalizing s with
  | nil =>
    cases hrun
    simp
  | cons label labels ih =>
    obtain ⟨next, hstep, hrun⟩ := Run.cons_some hrun
    have hlt := cooperative_decreases (hc label List.mem_cons_self) hstep
    have hle := ih (fun l hl => hc l (List.mem_cons_of_mem label hl)) hrun
    rw [List.length_cons]
    omega

theorem run_shutdown {labels : List Label} (h : s.shutdown = true) (hrun : run s labels = some s') :
    s'.shutdown = true :=
  Run.keeps (P := fun s => s.shutdown = true) (fun _ _ _ h hs => (step_does hs).shutdown h) h hrun

theorem remaining_le (s : System) : s.remaining ≤ 15 := by
  have htask : ∀ task, taskRemaining s task ≤ 3 := by
    intro task
    unfold taskRemaining
    cases s.tasks task with
    | none => exact Nat.zero_le 3
    | some pc =>
      cases pc with
      | selecting => exact Nat.le_succ 2
      | away => exact Nat.le_refl 3
      | exited => exact Nat.le_add_left 1 2
  have hphase : s.phase.remaining ≤ 3 := by
    cases s.phase with
    | waiting => exact Nat.le_refl 3
    | joined => exact Nat.le_succ 2
    | draining => exact Nat.le_add_left 1 2
    | returned => exact Nat.zero_le 3
  have hserver := htask .healthServer
  have hwakeups := htask .wakeups
  have hpoll := htask .poll
  have htracker := htask .tracker
  unfold System.remaining
  omega

end

/-- **Live mode winds down.** From any reachable state in which the shutdown has begun, whatever the
reconciliation in progress and the last status come to: cooperative steps, taken in any order, are
at most 15, and when no more can be taken the supervisor has returned. Not counted is what a
`select!` may still take in place of its shutdown branch: a wakeup, the end of a subscription or of
the server; nor a panic or another signal. -/
theorem winds_down (isWsUrl : Bool) (labels more : List Label) {s s' : System}
    (hrun : run (.start isWsUrl) labels = some s) (hshutdown : s.shutdown = true)
    (hmore : run s more = some s') (hc : ∀ label ∈ more, Cooperative label) :
    more.length ≤ 15 ∧
      ((∀ label, Cooperative label → step s' label = none) → ∃ result, s'.phase = .returned result) := by
  refine ⟨?_, fun hstuck => ?_⟩
  · have hlength := cooperative_run hc hmore
    have hle := remaining_le s
    omega
  · by_contra hphase
    have hsound := run_sound (run_sound (start_sound isWsUrl) hrun) hmore
    obtain ⟨label, hlabel, hstep⟩ := cooperative_enabled hsound (run_shutdown hshutdown hmore)
      (fun result hr => hphase ⟨result, hr⟩) (.ok ()) (.ok ())
    rw [hstuck label hlabel] at hstep
    cases hstep

/-- The subscription ends, and the tracker fails with a correctness stop; nobody has sent a signal. -/
def stopLabels : List Label :=
  [.reconciled (.ok ()), .subscription (.failed "newHeads subscription ended before shutdown"), .wakeup,
    .reconciled (.error (.taskFailed .tracker "correctness-stop: correctness_stop")), .join .tracker,
    .proceed]

/-- The other tasks follow. -/
def drainLabels : List Label :=
  [.slept, .shutdown .poll (.ok ()), .shutdown .wakeups (.ok ()), .join .wakeups,
    .shutdown .healthServer (.ok ()), .join .poll, .join .healthServer, .proceed]

/-- `winds_down` for these steps. -/
theorem winds_down_stop : ∃ s s', run (.start true) stopLabels = some s ∧
    run s drainLabels = some s' ∧ drainLabels.length ≤ 15 := by
  have hc : ∀ label ∈ drainLabels, Cooperative label := by simp [drainLabels, Cooperative]
  obtain ⟨s, hs⟩ : ∃ s, run (.start true) stopLabels = some s := ⟨_, rfl⟩
  have hshutdown : s.shutdown = true := by
    cases hs
    rfl
  obtain ⟨s', hs'⟩ : ∃ s', run s drainLabels = some s' := by
    cases hs
    exact ⟨_, rfl⟩
  exact ⟨s, s', hs, hs', (winds_down true stopLabels drainLabels hs hshutdown hs' hc).1⟩

end Chainweave.Supervisor
