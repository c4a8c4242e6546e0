import Chainweave.Sink.Postgres
import Chainweave.Core.Live
import Mathlib.Data.List.Infix

/-!
# The serialized writer

`crates/chainweave-sink/src/postgres.rs`: any number of `submit`s, `writer_loop` and
`shutdown`, in any interleaving, beside other clients of the database.

* `Queue`: the channel between them, a parameter; `Queue.Documented` is what the
  writer relies on. `fifo` is such a channel.
* `step`: one step of a submit, of the writer, of the shutdown or of another client.
* `Invariant`: what was accepted is what was handed to `apply_batch`, the batch in
  hand and the queue, in this order.
* `applies_in_order`: so of every reachable state.
-/
namespace Chainweave.Writer

open Stateful Chainweave.Chain Chainweave.Postgres

/-! ## The channel -/

/-- What `recv` finds. -/
inductive Received (χ : Type) where
  | batch (batch : DurableChainBatch) (channel : χ)
  /-- `None` -/
  | ended
  /-- nothing yet -/
  | pending

/-- A channel of batches, over its own state `χ`. A send takes a place, and then puts its batch
there. -/
structure Queue (χ : Type) where
  /-- `mpsc::channel(capacity)` -/
  channel : Nat → χ
  /-- the place a send waits for: `none` while there is no room, an error once closed -/
  reserve : χ → Option (Except Unit χ)
  put : DurableChainBatch → χ → χ
  /-- `Receiver::recv`, and whether a sender is left -/
  recv : Bool → χ → Received χ
  /-- `Receiver::close` -/
  close : χ → χ
  /-- the receiver is dropped -/
  dropReceiver : χ → χ
  /-- the batches put and not received, the oldest first -/
  queued : χ → List DurableChainBatch
  /-- the places taken and not used yet -/
  places : χ → Nat
  /-- `Sender::is_closed` -/
  isClosed : χ → Bool

/-- What the channel's documentation promises. -/
structure Queue.Documented {χ : Type} (queue : Queue χ) : Prop where
  empty : ∀ capacity : Nat, 0 < capacity →
    queue.queued (queue.channel capacity) = [] ∧ queue.places (queue.channel capacity) = 0
  /-- a closed channel gives no places -/
  reserve : ∀ c c', queue.reserve c = some (.ok c') →
    queue.isClosed c = false ∧ queue.queued c' = queue.queued c ∧ queue.places c' = queue.places c + 1
  put : ∀ batch c, 0 < queue.places c →
    queue.queued (queue.put batch c) = queue.queued c ++ [batch] ∧
      queue.places (queue.put batch c) + 1 = queue.places c
  /-- first in, first out -/
  recv_batch : ∀ senders c batch c', queue.recv senders c = .batch batch c' →
    queue.queued c = batch :: queue.queued c' ∧ queue.places c' = queue.places c
  /-- the end comes after all that was put, or will be in a place given before -/
  recv_ended : ∀ senders c, queue.recv senders c = .ended →
    queue.queued c = [] ∧ queue.places c = 0 ∧ (senders = true → queue.isClosed c = true)
  close : ∀ c, queue.queued (queue.close c) = queue.queued c ∧
    queue.places (queue.close c) = queue.places c
  dropReceiver : ∀ c, queue.places (queue.dropReceiver c) = queue.places c ∧
    queue.isClosed (queue.dropReceiver c) = true
  put_closed : ∀ batch c, queue.isClosed (queue.put batch c) = queue.isClosed c

/-- The batches in the channel, and the places given. -/
structure Fifo where
  capacity : Nat
  batches : List DurableChainBatch
  places : Nat
  closed : Bool

def fifo : Queue Fifo where
  channel capacity := ⟨capacity, [], 0, false⟩
  reserve c :=
    if c.closed then some (.error ())
    else if c.batches.length + c.places < c.capacity then some (.ok { c with places := c.places + 1 })
    else none
  put batch c := { c with batches := c.batches ++ [batch], places := c.places - 1 }
  recv senders c :=
    match c.batches with
    | batch :: batches => .batch batch { c with batches }
    | [] => if c.places = 0 ∧ (c.closed ∨ senders = false) then .ended else .pending
  close c := { c with closed := true }
  dropReceiver c := { c with batches := [], closed := true }
  queued := Fifo.batches
  places := Fifo.places
  isClosed := Fifo.closed

theorem fifo_documented : fifo.Documented where
  empty _ _ := ⟨rfl, rfl⟩
  reserve c c' h := by
    simp only [fifo] at h ⊢
    split at h
    · cases h
    · next hopen =>
      split at h
      · cases h
        exact ⟨by simpa using hopen, rfl, rfl⟩
      · cases h
  put batch c h := by
    simp only [fifo] at h ⊢
    exact ⟨trivial, by omega⟩
  recv_batch senders c batch c' h := by
    simp only [fifo] at h ⊢
    split at h
    · next hbatches =>
      cases h
      exact ⟨hbatches, rfl⟩
    · split at h <;> cases h
  recv_ended senders c h := by
    simp only [fifo] at h ⊢
    split at h
    · cases h
    · next hbatches =>
      split at h
      · next hend =>
        obtain ⟨hplaces, hclosed⟩ := hend
        exact ⟨hbatches, hplaces, fun hsenders => hclosed.resolve_right (by simp [hsenders])⟩
      · cases h
  close _ := ⟨rfl, rfl⟩
  dropReceiver _ := ⟨rfl, rfl⟩
  put_closed _ _ := rfl

/-! ## The system -/

/-- mirrors crates/chainweave-sink/src/postgres.rs:234-239 -/
inductive WriterQueueError where
  | shuttingDown | closed
  deriving DecidableEq, Repr

/-- mirrors crates/chainweave-sink/src/postgres.rs:242-245 -/
inductive WriterShutdownError where
  | timeout (drainTimeout : Live.Duration)
  deriving DecidableEq, Repr

/-- Where a `submit` is. -/
inductive SubmitPc where
  /-- before the checks -/
  | called
  /-- in `send`, for a place -/
  | waiting
  /-- in `send`, with a place -/
  | placed
  deriving DecidableEq, Repr

structure Submit where
  batch : DurableChainBatch
  pc : SubmitPc

/-- Where `writer_loop` is: `draining` in the loop after `close`. -/
inductive WriterPc where
  /-- at `select!`, or at `recv` of the draining loop -/
  | receiving (draining : Bool)
  | applying (draining : Bool) (batch : DurableChainBatch)
  /-- has left its loops, `failed` for an error -/
  | done (failed : Bool)

/-- Where `shutdown` is. -/
inductive ShutdownPc where
  | notCalled
  /-- `cancel` was cancelled -/
  | cancelled (drainTimeout : Live.Duration)
  /-- the sender was taken -/
  | senderTaken (drainTimeout : Live.Duration)
  /-- at `timeout(drain_timeout, tracker.wait())` -/
  | waiting (drainTimeout : Live.Duration)
  | returned (result : Except WriterShutdownError Unit)
  deriving DecidableEq

structure System (χ : Type) where
  channel : χ
  server : Server
  submits : List Submit
  writer : WriterPc
  shutdown : ShutdownPc
  /-- ghost: the batches that `submit` answered `Ok` for -/
  accepted : List DurableChainBatch
  /-- ghost: the errors `submit` answered -/
  refused : List WriterQueueError
  /-- ghost: the batches handed to `apply_batch`, and whether it succeeded -/
  calls : List (DurableChainBatch × Bool)

inductive Label where
  | submit (batch : DurableChainBatch)
  | submitter (index : Nat)
  /-- the caller drops the future of a submit -/
  | giveUp (index : Nat)
  /-- the writer takes the branch of `cancelled` -/
  | cancelled
  | receive
  | apply
  | shutdown (drainTimeout : Live.Duration)
  | shutdownStep
  | timeout
  /-- another client of the database -/
  | elsewhere (server : Server)

namespace System

variable {χ : Type}

/-- `cancel.is_cancelled()` -/
def isCancelled (s : System χ) : Bool :=
  match s.shutdown with
  | .notCalled => false
  | _ => true

/-- `self.sender` is there. -/
def hasSender (s : System χ) : Bool :=
  match s.shutdown with
  | .notCalled | .cancelled _ => true
  | _ => false

/-- The batches `writer_loop` has applied. -/
def applied (s : System χ) : List DurableChainBatch := (s.calls.filter (·.2)).map (·.1)

end System

section
variable {χ : Type} (queue : Queue χ)

/-- mirrors crates/chainweave-sink/src/postgres.rs:1331-1350 -/
def spawn (capacity : Nat) (server : Server) : System χ where
  channel := queue.channel capacity
  server := server
  submits := []
  writer := .receiving false
  shutdown := .notCalled
  accepted := []
  refused := []
  calls := []

/-- mirrors crates/chainweave-sink/src/postgres.rs:1357-1368 -/
def submitStep (s : System χ) (index : Nat) : Option (System χ) :=
  match s.submits[index]? with
  | none => none
  | some ⟨batch, .called⟩ =>
    if s.isCancelled ∨ s.hasSender = false then
      some { s with submits := s.submits.eraseIdx index, refused := s.refused ++ [.shuttingDown] }
    else some { s with submits := s.submits.set index ⟨batch, .waiting⟩ }
  | some ⟨batch, .waiting⟩ =>
    match queue.reserve s.channel with
    | none => none
    | some (.error ()) =>
      some { s with submits := s.submits.eraseIdx index, refused := s.refused ++ [.closed] }
    | some (.ok channel) => some { s with channel, submits := s.submits.set index ⟨batch, .placed⟩ }
  | some ⟨batch, .placed⟩ =>
    some { s with
      channel := queue.put batch s.channel
      submits := s.submits.eraseIdx index
      accepted := s.accepted ++ [batch] }

/-- The future of a submit is dropped before it has a place. -/
def giveUp (s : System χ) (index : Nat) : Option (System χ) :=
  match s.submits[index]? with
  | none | some ⟨_, .placed⟩ => none
  | some _ => some { s with submits := s.submits.eraseIdx index }

/-- `writer_loop` returns, and its receiver goes with it. -/
def System.finish (s : System χ) (failed : Bool) : System χ :=
  { s with channel := queue.dropReceiver s.channel, writer := .done failed }

/-- `receiver.recv()`. A submit on its way borrows the sender.
mirrors crates/chainweave-sink/src/postgres.rs:1396, 1404-1407 -/
def receive (s : System χ) : Option (System χ) :=
  match s.writer with
  | .receiving draining =>
    match queue.recv (s.hasSender || !s.submits.isEmpty) s.channel with
    | .batch batch channel => some { s with channel, writer := .applying draining batch }
    | .ended => some (s.finish queue false)
    | .pending => none
  | _ => none

/-- `writer.apply_batch(&batch)`.
mirrors crates/chainweave-sink/src/postgres.rs:1397-1400, 1408-1411 -/
def applyStep (s : System χ) : Option (System χ) :=
  match s.writer with
  | .applying draining batch =>
    match exec (Server.applyBatch batch) s.server with
    | (.ok _, server) =>
      some { s with server, calls := s.calls ++ [(batch, true)], writer := .receiving draining }
    | (.error _, server) =>
      some (({ s with server, calls := s.calls ++ [(batch, false)] } : System χ).finish queue true)
  | _ => none

/-- The branch of `cancelled`, which `select!` may take as soon as it is ready.
mirrors crates/chainweave-sink/src/postgres.rs:1394-1395 -/
def cancelledStep (s : System χ) : Option (System χ) :=
  match s.writer with
  | .receiving false =>
    if s.isCancelled then
      some { s with channel := queue.close s.channel, writer := .receiving true }
    else none
  | _ => none

/-- mirrors crates/chainweave-sink/src/postgres.rs:1375-1382 -/
def shutdownStep (s : System χ) : Option (System χ) :=
  match s.shutdown with
  | .cancelled drainTimeout => some { s with shutdown := .senderTaken drainTimeout }
  | .senderTaken drainTimeout => some { s with shutdown := .waiting drainTimeout }
  | .waiting _ =>
    match s.writer with
    | .done _ => some { s with shutdown := .returned (.ok ()) }
    | _ => none
  | _ => none

/-- mirrors crates/chainweave-sink/src/postgres.rs:1379-1381 -/
def timeoutStep (s : System χ) : Option (System χ) :=
  match s.shutdown with
  | .waiting drainTimeout => some { s with shutdown := .returned (.error (.timeout drainTimeout)) }
  | _ => none

def step (s : System χ) : Label → Option (System χ)
  | .submit batch => some { s with submits := s.submits ++ [⟨batch, .called⟩] }
  | .submitter index => submitStep queue s index
  | .giveUp index => giveUp s index
  | .cancelled => cancelledStep queue s
  | .receive => receive queue s
  | .apply => applyStep queue s
  | .shutdown drainTimeout =>
    match s.shutdown with
    | .notCalled => some { s with shutdown := .cancelled drainTimeout }
    | _ => none
  | .shutdownStep => shutdownStep s
  | .timeout => timeoutStep s
  | .elsewhere server => some { s with server }

/-- The states of the interleavings. -/
inductive Reachable : System χ → Prop
  | spawn {capacity : Nat} {server : Server} : 0 < capacity → Reachable (spawn queue capacity server)
  | step {s s' : System χ} (label : Label) : Reachable s → step queue s label = some s' → Reachable s'

end

/-- A run of the interleaving. -/
def run {χ : Type} (queue : Queue χ) (labels : List Label) (s : System χ) : Option (System χ) :=
  labels.foldlM (step queue) s

theorem reachable_run {χ : Type} {queue : Queue χ} (labels : List Label) {s s' : System χ}
    (reached : Reachable queue s) (h : run queue labels s = some s') : Reachable queue s' := by
  induction labels generalizing s with
  | nil =>
    cases h
    exact reached
  | cons label labels ih =>
    simp only [run, List.foldlM_cons, Option.bind_eq_bind, Option.bind_eq_some_iff] at h
    obtain ⟨next, hstep, h⟩ := h
    exact ih (.step label reached hstep) h

/-! ## The invariant -/

/-- The batch handed to `apply_batch` last, while it runs. -/
def WriterPc.inHand : WriterPc → List DurableChainBatch
  | .applying _ batch => [batch]
  | _ => []

/-- How many submits have a place. -/
def placed (submits : List Submit) : Nat := submits.countP (·.pc = .placed)

section
variable {χ : Type} {queue : Queue χ}

structure Invariant (queue : Queue χ) (s : System χ) : Prop where
  places : queue.places s.channel = placed s.submits
  order : (∀ failed, s.writer ≠ .done failed) →
    s.calls.map (·.1) ++ s.writer.inHand ++ queue.queued s.channel = s.accepted
  drained : s.writer = .done false →
    s.calls.map (·.1) = s.accepted ∧ queue.places s.channel = 0 ∧ queue.isClosed s.channel = true
  ordered : s.calls.map (·.1) <+: s.accepted
  succeeded : s.writer ≠ .done true → ∀ call ∈ s.calls, call.2 = true
  failure : s.writer = .done true → ∃ batch, (batch, false) ∈ s.calls
  failedLast : ∀ before batch after, s.calls = before ++ (batch, false) :: after → after = []
  returned : s.shutdown = .returned (.ok ()) → ∃ failed, s.writer = .done failed

variable {submits : List Submit} {index : Nat} {submit : Submit}

theorem placed_erase (h : submits[index]? = some submit) :
    placed submits = placed (submits.eraseIdx index) + if submit.pc = .placed then 1 else 0 := by
  obtain ⟨hlt, hget⟩ := List.getElem?_eq_some_iff.1 h
  unfold placed
  rw [← (List.getElem_cons_eraseIdx_perm hlt).countP_eq, List.countP_cons, hget]
  simp

theorem placed_set (h : submits[index]? = some submit) (submit' : Submit) :
    placed (submits.set index submit') =
      placed (submits.eraseIdx index) + if submit'.pc = .placed then 1 else 0 := by
  obtain ⟨hlt, -⟩ := List.getElem?_eq_some_iff.1 h
  unfold placed
  rw [(List.set_perm_cons_eraseIdx hlt submit').countP_eq, List.countP_cons]
  simp

theorem spawn_invariant (h : queue.Documented) {capacity : Nat} (hpos : 0 < capacity)
    (server : Server) : Invariant queue (spawn queue capacity server) := by
  obtain ⟨hempty, hunused⟩ := h.empty capacity hpos
  exact {
    places := hunused
    order := fun _ => hempty
    drained := by intro hdone; cases hdone
    ordered := List.prefix_rfl
    succeeded := by intro _ call hcall; cases hcall
    failure := by intro hdone; cases hdone
    failedLast := by intro before batch after hcalls; cases before <;> cases hcalls
    returned := by intro hreturned; cases hreturned }

variable {s s' : System χ}

/-- Other submits, with as many places. -/
theorem Invariant.onSubmits (hs : Invariant queue s) (refused : List WriterQueueError)
    (hplaced : placed submits = placed s.submits) :
    Invariant queue { s with submits, refused } :=
  { hs with places := hs.places.trans hplaced.symm }

theorem submitStep_invariant (h : queue.Documented) (hs : Invariant queue s)
    (hstep : submitStep queue s index = some s') : Invariant queue s' := by
  unfold submitStep at hstep
  split at hstep
  · cases hstep
  · next batch hget =>
    split at hstep
    · cases hstep
      exact hs.onSubmits _ (by simp [placed_erase hget])
    · cases hstep
      exact hs.onSubmits _ (by simp [placed_erase hget, placed_set hget])
  · next batch hget =>
    split at hstep
    · cases hstep
    · cases hstep
      exact hs.onSubmits _ (by simp [placed_erase hget])
    · next channel hreserve =>
      cases hstep
      obtain ⟨hopen, hqueued, hplaces⟩ := h.reserve _ _ hreserve
      have hplaced : placed (s.submits.set index ⟨batch, .placed⟩) = placed s.submits + 1 := by
        rw [placed_set hget, placed_erase hget]
        simp
      exact { hs with
        places := by rw [hplaces, hplaced, hs.places]
        order := fun hdone => by
          rw [hqueued]
          exact hs.order hdone
        drained := fun hdone => by
          -- The channel of a writer that is done is closed.
          have hclosed := (hs.drained hdone).2.2
          rw [hopen] at hclosed
          cases hclosed }
  · next batch hget =>
    cases hstep
    have hplaced : placed s.submits = placed (s.submits.eraseIdx index) + 1 := by
      rw [placed_erase hget]
      simp
    have hplaces := hs.places
    obtain ⟨hqueued, hput⟩ := h.put batch s.channel (by omega)
    exact { hs with
      places := by
        show queue.places (queue.put batch s.channel) = placed (s.submits.eraseIdx index)
        omega
      order := fun hdone => by
        rw [hqueued, ← List.append_assoc, hs.order hdone]
      drained := fun hdone => by
        have hnone := (hs.drained hdone).2.1
        omega
      ordered := hs.ordered.trans (List.prefix_append _ _) }

theorem giveUp_invariant (hs : Invariant queue s) (hstep : giveUp s index = some s') :
    Invariant queue s' := by
  unfold giveUp at hstep
  split at hstep
  · cases hstep
  · cases hstep
  · next submit hnot hget =>
    cases hstep
    have hpc : submit.pc ≠ .placed := by
      intro hplaced
      obtain ⟨batch, pc⟩ := submit
      obtain rfl : pc = .placed := hplaced
      exact hnot batch rfl
    exact hs.onSubmits s.refused (by rw [placed_erase hget, if_neg hpc]; rfl)

/-- While the writer runs, `shutdown` has not returned `Ok`. -/
theorem Invariant.not_returned (hs : Invariant queue s)
    (hrunning : ∀ failed, s.writer ≠ .done failed) : s.shutdown ≠ .returned (.ok ()) := by
  intro hreturned
  obtain ⟨failed, hdone⟩ := hs.returned hreturned
  exact hrunning failed hdone

/-- The writer goes on, with what it and the channel hold in the same order. -/
theorem Invariant.onWriter (hs : Invariant queue s) (hrunning : ∀ failed, s.writer ≠ .done failed)
    {channel : χ} {writer : WriterPc} (hstill : ∀ failed, writer ≠ .done failed)
    (hplaces : queue.places channel = queue.places s.channel)
    (horder : s.calls.map (·.1) ++ writer.inHand ++ queue.queued channel = s.accepted) :
    Invariant queue { s with channel, writer } where
  places := hplaces.trans hs.places
  order := fun _ => horder
  drained := fun hdone => absurd hdone (hstill false)
  ordered := hs.ordered
  succeeded := fun _ => hs.succeeded (hrunning true)
  failure := fun hdone => absurd hdone (hstill true)
  failedLast := hs.failedLast
  returned := fun hreturned => absurd hreturned (hs.not_returned hrunning)

theorem finish_invariant (h : queue.Documented) (hs : Invariant queue s)
    (hend : s.calls.map (·.1) = s.accepted) (hplaces : queue.places s.channel = 0)
    (hrunning : ∀ failed, s.writer ≠ .done failed) : Invariant queue (s.finish queue false) := by
  obtain ⟨hsame, hclosed⟩ := h.dropReceiver s.channel
  exact {
    places := hsame.trans hs.places
    order := fun hdone => absurd rfl (hdone false)
    drained := fun _ => ⟨hend, hsame.trans hplaces, hclosed⟩
    ordered := hs.ordered
    succeeded := fun _ => hs.succeeded (hrunning true)
    failure := by intro hdone; cases hdone
    failedLast := hs.failedLast
    returned := fun _ => ⟨false, rfl⟩ }

theorem receive_invariant (h : queue.Documented) (hs : Invariant queue s)
    (hstep : receive queue s = some s') : Invariant queue s' := by
  unfold receive at hstep
  split at hstep
  · next draining hpc =>
    have hrunning : ∀ failed, s.writer ≠ .done failed := by simp [hpc]
    have horder := hs.order hrunning
    rw [hpc] at horder
    split at hstep
    · next batch channel hrecv =>
      cases hstep
      obtain ⟨hqueued, hplaces⟩ := h.recv_batch _ _ _ _ hrecv
      rw [hqueued] at horder
      exact hs.onWriter hrunning (by simp) hplaces (by simpa [WriterPc.inHand] using horder)
    · next hrecv =>
      cases hstep
      obtain ⟨hqueued, hplaces, -⟩ := h.recv_ended _ _ hrecv
      rw [hqueued] at horder
      exact finish_invariant h hs (by simpa [WriterPc.inHand] using horder) hplaces hrunning
    · cases hstep
  · cases hstep

/-- After calls that succeeded, one that fails is the last. -/
theorem failed_last {calls before after : List (DurableChainBatch × Bool)}
    {call : DurableChainBatch × Bool} {failed : DurableChainBatch}
    (hsucceeded : ∀ call ∈ calls, call.2 = true)
    (h : calls ++ [call] = before ++ (failed, false) :: after) : after = [] := by
  rcases List.eq_nil_or_concat after with rfl | ⟨rest, last, rfl⟩
  · rfl
  · have hsplit : calls ++ [call] = (before ++ (failed, false) :: rest) ++ [last] := by
      simpa using h
    have hcalls := List.append_inj_left' hsplit rfl
    have hfailed := hsucceeded (failed, false) (by simp [hcalls])
    cases hfailed

/-- A batch that was handed to `apply_batch` is one of `calls`, failed or not. -/
theorem applyStep_invariant (h : queue.Documented) (hs : Invariant queue s)
    (hstep : applyStep queue s = some s') : Invariant queue s' := by
  unfold applyStep at hstep
  split at hstep
  · next draining batch hpc =>
    have hrunning : ∀ failed, s.writer ≠ .done failed := by simp [hpc]
    have horder := hs.order hrunning
    rw [hpc] at horder
    have hsucceeded := hs.succeeded (hrunning true)
    have hordered : ∀ outcome : Bool, (s.calls ++ [(batch, outcome)]).map (·.1) <+: s.accepted := by
      intro outcome
      rw [← horder, List.map_append]
      exact List.prefix_append _ _
    split at hstep
    · next hx =>
      cases hstep
      exact {
        places := hs.places
        order := fun _ => by simpa [WriterPc.inHand] using horder
        drained := by intro hdone; cases hdone
        ordered := hordered true
        succeeded := fun _ call hcall => by
          cases List.mem_append.1 hcall with
          | inl hold => exact hsucceeded call hold
          | inr hnew => rw [List.mem_singleton.1 hnew]
        failure := by intro hdone; cases hdone
        failedLast := fun _ _ _ => failed_last hsucceeded
        returned := fun hreturned => absurd hreturned (hs.not_returned hrunning) }
    · next hx =>
      cases hstep
      obtain ⟨hsame, hclosed⟩ := h.dropReceiver s.channel
      exact {
        places := hsame.trans hs.places
        order := fun hdone => absurd rfl (hdone true)
        drained := by intro hdone; cases hdone
        ordered := hordered false
        succeeded := fun hdone => absurd rfl hdone
        failure := fun _ => ⟨batch, List.mem_append_right _ List.mem_cons_self⟩
        failedLast := fun _ _ _ => failed_last hsucceeded
        returned := fun _ => ⟨true, rfl⟩ }
  · cases hstep

theorem cancelledStep_invariant (h : queue.Documented) (hs : Invariant queue s)
    (hstep : cancelledStep queue s = some s') : Invariant queue s' := by
  unfold cancelledStep at hstep
  split at hstep
  · next hpc =>
    split at hstep
    · cases hstep
      obtain ⟨hqueued, hplaces⟩ := h.close s.channel
      have hrunning : ∀ failed, s.writer ≠ .done failed := by simp [hpc]
      have horder := hs.order hrunning
      rw [hpc] at horder
      refine hs.onWriter hrunning (by simp) hplaces ?_
      rw [hqueued]
      exact horder
    · cases hstep
  · cases hstep

/-- `shutdown` returns `Ok` once the writer has returned. -/
theorem shutdownStep_invariant (hs : Invariant queue s) (hstep : shutdownStep s = some s') :
    Invariant queue s' := by
  unfold shutdownStep at hstep
  split at hstep
  · cases hstep
    exact { hs with returned := by intro hreturned; cases hreturned }
  · cases hstep
    exact { hs with returned := by intro hreturned; cases hreturned }
  · split at hstep
    · next failed hdone =>
      cases hstep
      exact { hs with returned := fun _ => ⟨failed, hdone⟩ }
    · cases hstep
  · cases hstep

theorem timeoutStep_invariant (hs : Invariant queue s) (hstep : timeoutStep s = some s') :
    Invariant queue s' := by
  unfold timeoutStep at hstep
  split at hstep
  · cases hstep
    exact { hs with returned := by intro hreturned; cases hreturned }
  · cases hstep

theorem step_invariant (h : queue.Documented) (hs : Invariant queue s) {label : Label}
    (hstep : step queue s label = some s') : Invariant queue s' := by
  cases label with
  | submit batch =>
    cases hstep
    exact hs.onSubmits s.refused (by simp [placed])
  | submitter index => exact submitStep_invariant h hs hstep
  | giveUp index => exact giveUp_invariant hs hstep
  | cancelled => exact cancelledStep_invariant h hs hstep
  | receive => exact receive_invariant h hs hstep
  | apply => exact applyStep_invariant h hs hstep
  | shutdown drainTimeout =>
    simp only [step] at hstep
    split at hstep
    · cases hstep
      exact { hs with returned := by intro hreturned; cases hreturned }
    · cases hstep
  | shutdownStep => exact shutdownStep_invariant hs hstep
  | timeout => exact timeoutStep_invariant hs hstep
  | elsewhere server =>
    cases hstep
    exact { hs with }

theorem reachable_invariant (h : queue.Documented) (reached : Reachable queue s) :
    Invariant queue s := by
  induction reached with
  | spawn hpos => exact spawn_invariant h hpos _
  | step label _ hstep ih => exact step_invariant h ih hstep

/-! ## What is applied -/

theorem applied_all (hall : ∀ call ∈ s.calls, call.2 = true) : s.applied = s.calls.map (·.1) := by
  unfold System.applied
  rw [List.filter_eq_self.2 hall]

/-- Before the call that failed all succeeded. -/
theorem Invariant.applied_failed (hs : Invariant queue s)
    {before after : List (DurableChainBatch × Bool)} {batch : DurableChainBatch}
    (hcalls : s.calls = before ++ (batch, false) :: after) :
    after = [] ∧ s.applied = before.map (·.1) := by
  have hafter := hs.failedLast _ _ _ hcalls
  have hall : ∀ call ∈ before, call.2 = true := by
    intro call hcall
    by_contra hfalse
    obtain ⟨earlier, between, rfl⟩ := List.append_of_mem hcall
    obtain ⟨failed, outcome⟩ := call
    obtain rfl : outcome = false := by simpa using hfalse
    have hnone := hs.failedLast earlier failed (between ++ (batch, false) :: after)
      (by simpa using hcalls)
    simp at hnone
  refine ⟨hafter, ?_⟩
  unfold System.applied
  rw [hcalls, hafter, List.filter_append, List.filter_eq_self.2 hall]
  simp

/-- **The writer applies what was accepted, in order.** In every reachable state, the batches handed to
`apply_batch` are the first ones accepted, in order and each once, and all but a failed last one are
applied. Once `shutdown` has returned `Ok` and none has failed, every accepted batch is applied. -/
theorem applies_in_order (h : queue.Documented) (reached : Reachable queue s) :
    s.applied <+: s.accepted ∧ s.calls.map (·.1) <+: s.accepted ∧
      (∀ before batch after, s.calls = before ++ (batch, false) :: after →
        after = [] ∧ s.applied = before.map (·.1)) ∧
      (s.shutdown = .returned (.ok ()) → (∀ call ∈ s.calls, call.2 = true) →
        s.applied = s.accepted) := by
  have hs := reachable_invariant h reached
  refine ⟨?_, hs.ordered, fun _ _ _ hcalls => hs.applied_failed hcalls, fun hreturned hall => ?_⟩
  · by_cases hall : ∀ call ∈ s.calls, call.2 = true
    · rw [applied_all hall]
      exact hs.ordered
    · push Not at hall
      obtain ⟨call, hcall, hfalse⟩ := hall
      obtain ⟨before, after, hcalls⟩ := List.append_of_mem hcall
      obtain ⟨batch, outcome⟩ := call
      obtain rfl : outcome = false := by simpa using hfalse
      rw [(hs.applied_failed hcalls).2]
      refine List.IsPrefix.trans ?_ hs.ordered
      rw [hcalls, List.map_append]
      exact List.prefix_append _ _
  · obtain ⟨failed, hdone⟩ := hs.returned hreturned
    cases failed with
    | false => rw [applied_all hall, (hs.drained hdone).1]
    | true =>
      obtain ⟨batch, hfailed⟩ := hs.failure hdone
      exact absurd (hall _ hfailed) Bool.false_ne_true

end

/-- A block without logs. -/
def plainBlock (header : BlockHeader) : IndexedBlock where
  header := header
  timestamp := 0
  status := .Unsafe
  statusSource := .Observed
  logs := []

def genesisBatch : DurableChainBatch where
  transition := .bootstrap
  commonAncestor := none
  events := [.apply (plainBlock ⟨1, 0, 0⟩)]

def childBatch : DurableChainBatch where
  transition := .extend
  commonAncestor := some ⟨1, 0, 0⟩
  events := [.apply (plainBlock ⟨2, 1, 1⟩)]

/-- `graceful_shutdown_drains_queued_batches`, the shutdown called while the first batch is applied.
mirrors crates/chainweave-sink/src/postgres.rs:2039-2063 -/
def graceful : List Label :=
  [.submit genesisBatch, .submit childBatch, .submitter 0, .submitter 1, .submitter 0, .submitter 0,
    .receive, .submitter 0, .submitter 0, .shutdown 5000, .apply, .shutdownStep, .cancelled,
    .shutdownStep, .receive, .apply, .receive, .shutdownStep]

/-- `applies_in_order` after that shutdown: the checkpoint is at the second batch. -/
theorem applies_in_order_graceful :
    ∃ s, run fifo graceful (spawn fifo 4 { db := Database.empty 1 }) = some s ∧
      s.server.db.1.checkpoint.map (·.lastHeight) = some 1 ∧ s.accepted = [genesisBatch, childBatch] ∧
      s.applied = s.accepted := by
  have hseen : (run fifo graceful (spawn fifo 4 { db := Database.empty 1 })).any (fun s =>
      s.server.db.1.checkpoint.map (·.lastHeight) = some 1 ∧
        s.accepted = [genesisBatch, childBatch] ∧ s.shutdown = .returned (.ok ()) ∧
        s.calls.all (·.2) = true) = true := by
    decide +kernel
  cases hrun : run fifo graceful (spawn fifo 4 { db := Database.empty 1 }) with
  | none => rw [hrun] at hseen; cases hseen
  | some s =>
    rw [hrun] at hseen
    obtain ⟨hcheckpoint, haccepted, hreturned, hall⟩ := of_decide_eq_true hseen
    have reached := reachable_run graceful (.spawn (Nat.succ_pos 3)) hrun
    exact ⟨s, rfl, hcheckpoint, haccepted,
      (applies_in_order fifo_documented reached).2.2.2 hreturned (List.all_eq_true.1 hall)⟩

end Chainweave.Writer
