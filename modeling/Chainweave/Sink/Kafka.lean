import Mathlib.Data.List.Sort
import Mathlib.Logic.Function.Basic

/-!
# The outbox dispatchers

`crates/chainweave-sink/src/kafka.rs`: a dispatcher takes the first outbox row that is
not published, publishes it, and marks it, all in one transaction. Any number of them
run beside the writer.

* `Phase` is where a dispatcher's `dispatch_once_inner` awaits; a dispatcher that
  returned may be called again, by its loop or after a restart.
* The row lock of `FOR UPDATE` is held while a `Phase` names the row. A `SELECT` that
  waited reads the row again, and goes on to the next one of its snapshot if the row was
  published meanwhile.
* The producer may deliver a message several times, also one whose delivery it reports
  as failed, but not after it reported.
* Marks are visible from the commit on. `lost` is a commit whose answer does not arrive.

Two assumptions are in `step`. Transactions of the writer do not overlap, so `event_id`s
ascend in commit order. And a dispatcher that loses its session ends its attempt there: no
message of it arrives once the row is free for another one.
-/
namespace Chainweave.Kafka

variable {J : Type} {n : Nat}

/-- A row as the query reads it.
mirrors crates/chainweave-sink/src/kafka.rs:101-109 -/
structure OutboxRow (J : Type) where
  eventId : Int
  chainId : String
  eventKind : String
  blockHash : List UInt8
  blockHeight : Int
  payload : J
  deriving DecidableEq, Repr

/-- mirrors crates/chainweave-sink/src/kafka.rs:41-45 -/
structure KafkaOutboxOrdering where
  eventId : Int
  blockHeight : Nat
  deriving DecidableEq, Repr

/-- mirrors crates/chainweave-sink/src/kafka.rs:29-39 -/
structure KafkaOutboxMessage (J : Type) where
  schemaVersion : Nat
  eventId : Int
  chainId : String
  transitionKind : String
  blockHash : String
  blockHeight : Nat
  ordering : KafkaOutboxOrdering
  payload : J
  deriving DecidableEq, Repr

/-- mirrors crates/chainweave-sink/src/kafka.rs:47-51 -/
inductive KafkaDispatchOutcome (J : Type) where
  | Delivered (message : KafkaOutboxMessage J)
  | Idle
  deriving DecidableEq, Repr

/-- mirrors crates/chainweave-sink/src/kafka.rs:53-57 -/
inductive KafkaDispatchFailurePoint where
  | BeforePublish
  | AfterBrokerAckBeforeMark
  deriving DecidableEq, Repr

/-- mirrors crates/chainweave-sink/src/kafka.rs:75-99 -/
inductive KafkaDispatchError where
  | database
  | invalidBlockHash (eventId : Int) (length : Nat)
  | invalidBlockHeight (eventId : Int) (height : Int)
  | publish (eventId : Int) (message : String)
  | injectedBeforePublish (eventId : Int)
  | injectedAfterAck (eventId : Int)
  deriving DecidableEq, Repr

/-! ## Messages -/

/-- mirrors crates/chainweave-sink/src/kafka.rs:502-510 -/
def hexBytes (bytes : List UInt8) : String :=
  "0x" ++ String.ofList (bytes.flatMap fun byte =>
    [Nat.digitChar (byte.toNat / 16), Nat.digitChar (byte.toNat % 16)])

/-- mirrors crates/chainweave-sink/src/kafka.rs:475-500 -/
def rowToMessage (row : OutboxRow J) : Except KafkaDispatchError (KafkaOutboxMessage J) :=
  if row.blockHeight < 0 then .error (.invalidBlockHeight row.eventId row.blockHeight)
  else
    let blockHeight := row.blockHeight.toNat
    if row.blockHash.length ≠ 32 then
      .error (.invalidBlockHash row.eventId row.blockHash.length)
    else
      .ok {
        schemaVersion := 1
        eventId := row.eventId
        chainId := row.chainId
        transitionKind := row.eventKind
        blockHash := hexBytes row.blockHash
        blockHeight
        ordering := { eventId := row.eventId, blockHeight }
        payload := row.payload }

/-! ## The table -/

/-- A committed row; `published_at` is set or not. -/
structure OutboxEntry (J : Type) where
  row : OutboxRow J
  published : Bool
  deriving DecidableEq, Repr

/-- The rows that a `SELECT` starting now goes through.
mirrors crates/chainweave-sink/src/kafka.rs:431-453 -/
def unpublishedRows (outbox : List (OutboxEntry J)) : List (OutboxRow J) :=
  ((outbox.filter (!·.published)).map (·.row)).insertionSort fun a b => a.eventId ≤ b.eventId

/-- mirrors crates/chainweave-sink/src/kafka.rs:289-297 -/
def OutboxEntry.mark (eventId : Int) (entry : OutboxEntry J) : OutboxEntry J :=
  if entry.row.eventId = eventId ∧ entry.published = false then { entry with published := true }
  else entry

def markPublished (eventId : Int) (outbox : List (OutboxEntry J)) : List (OutboxEntry J) :=
  outbox.map (·.mark eventId)

/-! ## One dispatcher -/

/-- Where `dispatch_once_inner` is. -/
inductive Phase (J : Type) where
  | returned (result : Option (Except KafkaDispatchError (KafkaDispatchOutcome J)))
  | selecting (failure : Option KafkaDispatchFailurePoint) (candidates : List (OutboxRow J))
  | publishing (failure : Option KafkaDispatchFailurePoint) (message : KafkaOutboxMessage J)
  | marking (message : KafkaOutboxMessage J)
  | committing (message : KafkaOutboxMessage J)

namespace Phase

def fail (error : KafkaDispatchError) : Phase J := .returned (some (.error error))

/-- The message in hand; its row is locked. -/
def message : Phase J → Option (KafkaOutboxMessage J)
  | .returned _ => none
  | .selecting _ _ => none
  | .publishing _ message => some message
  | .marking message => some message
  | .committing message => some message

/-- From the locked row to the call of `publish`.
mirrors crates/chainweave-sink/src/kafka.rs:264-270 -/
def locked (failure : Option KafkaDispatchFailurePoint) (row : OutboxRow J) : Phase J :=
  match rowToMessage row with
  | .error error => fail error
  | .ok message =>
    if failure = some .BeforePublish then fail (.injectedBeforePublish message.eventId)
    else .publishing failure message

/-- From the answer of `publish` to the `UPDATE`.
mirrors crates/chainweave-sink/src/kafka.rs:272-287 -/
def published (failure : Option KafkaDispatchFailurePoint) (message : KafkaOutboxMessage J) :
    Except String Unit → Phase J
  | .error errorMessage => fail (.publish message.eventId errorMessage)
  | .ok _ =>
    if failure = some .AfterBrokerAckBeforeMark then fail (.injectedAfterAck message.eventId)
    else .marking message

end Phase

/-! ## All of them -/

structure State (J : Type) (n : Nat) where
  outbox : List (OutboxEntry J)
  /-- what the broker has, in order -/
  topic : List (KafkaOutboxMessage J)
  dispatchers : Fin n → Phase J

def State.init : State J n where
  outbox := []
  topic := []
  dispatchers _ := .returned none

def State.setPhase (s : State J n) (d : Fin n) (phase : Phase J) : State J n :=
  { s with dispatchers := Function.update s.dispatchers d phase }

/-- No dispatcher has the row locked. -/
def State.Free (s : State J n) (eventId : Int) : Prop :=
  ∀ d, ∀ message ∈ (s.dispatchers d).message, message.eventId ≠ eventId

instance (s : State J n) (eventId : Int) : Decidable (s.Free eventId) :=
  inferInstanceAs (Decidable (∀ d, ∀ message ∈ (s.dispatchers d).message, message.eventId ≠ eventId))

inductive Action (J : Type) (n : Nat) where
  /-- the writer commits rows -/
  | append (rows : List (OutboxRow J))
  | start (d : Fin n) (failure : Option KafkaDispatchFailurePoint)
  /-- the first row of the snapshot is free, or there is none -/
  | lock (d : Fin n)
  | publish (d : Fin n) (copies : Nat) (result : Except String Unit)
  | mark (d : Fin n)
  | commit (d : Fin n)
  /-- the commit happens, its answer gets lost -/
  | lost (d : Fin n)
  /-- the database fails, or the process does -/
  | fail (d : Fin n)

/-- The `SELECT`, when it gets hold of its first row. -/
def State.lock (s : State J n) (d : Fin n) (failure : Option KafkaDispatchFailurePoint) :
    List (OutboxRow J) → Option (State J n)
  | [] => some (s.setPhase d (.returned (some (.ok .Idle))))
  | candidate :: rest =>
    if s.Free candidate.eventId then
      match s.outbox.find? (·.row.eventId = candidate.eventId) with
      | some ⟨row, false⟩ => some (s.setPhase d (.locked failure row))
      | _ => some (s.setPhase d (.selecting failure rest))
    else none

/-- One step of the writer or of a dispatcher; none if it is not there yet. A producer that reports
success has delivered, `event_id`s ascend in commit order, and an attempt whose session is lost has
ended. -/
def step (s : State J n) : Action J n → Option (State J n)
  | .append rows =>
    let outbox := s.outbox ++ rows.map fun row => ⟨row, false⟩
    if outbox.Pairwise fun a b => a.row.eventId < b.row.eventId then some { s with outbox } else none
  | .start d failure =>
    match s.dispatchers d with
    | .returned _ => some (s.setPhase d (.selecting failure (unpublishedRows s.outbox)))
    | _ => none
  | .lock d =>
    match s.dispatchers d with
    | .selecting failure candidates => s.lock d failure candidates
    | _ => none
  | .publish d copies result =>
    match s.dispatchers d with
    | .publishing failure message =>
      if result.toBool = true ∧ copies = 0 then none
      else some ({ s with topic := s.topic ++ List.replicate copies message }.setPhase d
        (.published failure message result))
    | _ => none
  | .mark d =>
    match s.dispatchers d with
    | .marking message => some (s.setPhase d (.committing message))
    | _ => none
  | .commit d =>
    match s.dispatchers d with
    | .committing message =>
      some ({ s with outbox := markPublished message.eventId s.outbox }.setPhase d
        (.returned (some (.ok (.Delivered message)))))
    | _ => none
  | .lost d =>
    match s.dispatchers d with
    | .committing message =>
      some ({ s with outbox := markPublished message.eventId s.outbox }.setPhase d (.fail .database))
    | _ => none
  | .fail d =>
    match s.dispatchers d with
    | .returned _ => none
    | _ => some (s.setPhase d (.fail .database))

/-- One step after the other. -/
def run (s : State J n) (actions : List (Action J n)) : Option (State J n) := actions.foldlM step s

end Chainweave.Kafka
