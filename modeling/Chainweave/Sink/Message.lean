import Chainweave.Lib.Serde
import Chainweave.Sink.Consumer

/-!
# Messages as JSON

`crates/chainweave-sink/src/postgres.rs` writes the payload of an outbox row as JSON,
`kafka.rs` puts a message around it, and a consumer reads fields of that. Of a decoded
event only its JSON value counts, here `json`.

* `payloadValue_injective`, `messageValue_injective`: no two payloads or messages are the
  same JSON.
* `messages_lossless`: so from the JSON of the topic a consumer has the blocks and logs
  that the transactions wrote.
* `render_message`: the line that the demo consumer prints for a message.
-/
namespace Chainweave.Kafka

open Serde Chainweave.Chain Chainweave.Postgres

variable {J : Type}

/-! ## The source -/

/-- mirrors crates/chainweave-sink/src/postgres.rs:247-255 -/
def statusText : BlockStatus → String
  | .Unsafe => "unsafe"
  | .Safe => "safe"
  | .Finalized => "finalized"

/-- mirrors crates/chainweave-sink/src/postgres.rs:257-265 -/
def sourceText : StatusSource → String
  | .Observed => "observed"
  | .Native => "native"
  | .Depth => "depth"

/-- The two texts `append_outbox` is called with.
mirrors crates/chainweave-sink/src/postgres.rs:436, 458 -/
def kindText : EventKind → String
  | .apply => "apply"
  | .rollback => "rollback"

/-- mirrors crates/chainweave-sink/src/postgres.rs:1518-1520 -/
def addressBytes (address : Address) : List UInt8 :=
  (List.range 20).map fun i => UInt8.ofNat (address.toNat / 256 ^ (19 - i))

section
variable (json : Json → Value)

/-- mirrors crates/chainweave-sink/src/postgres.rs:737-746 -/
def logValue (log : RawLog) : Value := .ofFields [
  ("transaction_index", .ofNat log.transactionIndex),
  ("log_index", .ofNat log.logIndex),
  ("tx_hash", .string (hashText log.txHash)),
  ("address", .string (hexBytes (addressBytes log.address))),
  ("topics", .array (log.topics.map fun topic => .string (hashText topic))),
  ("data", .string (hexBytes log.data)),
  ("decoded_event", .ofOption json log.decodedEvent),
  ("decoder_version", .ofOption .string log.decoderVersion)]

/-- mirrors crates/chainweave-sink/src/postgres.rs:751-762 -/
def payloadValue (payload : OutboxPayload) : Value := .ofFields [
  ("schema_version", .ofNat payload.schemaVersion),
  ("transition", .string (kindText payload.transition)),
  ("chain_id", .string (toString payload.chainId)),
  ("block_hash", .string (hashText payload.blockHash)),
  ("parent_hash", .string (hashText payload.parentHash)),
  ("block_height", .ofNat payload.blockHeight),
  ("status", .ofOption (fun status => .string (statusText status)) payload.status),
  ("status_source", .ofOption (fun source => .string (sourceText source)) payload.statusSource),
  ("log_count", .ofNat payload.logCount),
  ("logs", .array (payload.logs.map (logValue json)))]

end

/-- The derived `Serialize`.
mirrors crates/chainweave-sink/src/kafka.rs:29-45 -/
def messageValue (payload : J → Value) (message : KafkaOutboxMessage J) : Value := .ofFields [
  ("schema_version", .ofNat message.schemaVersion),
  ("event_id", .ofInt message.eventId),
  ("chain_id", .string message.chainId),
  ("transition_kind", .string message.transitionKind),
  ("block_hash", .string message.blockHash),
  ("block_height", .ofNat message.blockHeight),
  ("ordering", .ofFields [
    ("event_id", .ofInt message.ordering.eventId),
    ("block_height", .ofNat message.ordering.blockHeight)]),
  ("payload", payload message.payload)]

/-- mirrors crates/chainweave-sink/src/kafka.rs:392-429 -/
def renderDemoConsumerEvent (value : Value) : String :=
  let eventId := ((value.get "event_id").bind Value.asI64).elim "unknown" toString
  let transition := ((value.get "transition_kind").bind Value.asStr).getD "unknown"
  let blockHeight := ((value.get "block_height").bind Value.asU64).elim "unknown" toString
  let blockHash := ((value.get "block_hash").bind Value.asStr).getD "unknown"
  if transition = "rollback" then
    s!"rollback event_id={eventId} block_height={blockHeight} block_hash={blockHash}"
  else
    let logs := ((value.get "payload").bind (Value.get "logs")).bind Value.asArray
    let decoded := logs.elim 0 fun logs =>
      ((logs.filterMap (Value.get "decoded_event")).filter (!·.isNull)).length
    s!"{transition} event_id={eventId} block_height={blockHeight} block_hash={blockHash} " ++
      s!"decoded_events={decoded}"

/-! ## The widths of the source -/

/-- The indices of a log are `u32`. -/
def LogFits (log : RawLog) : Prop := log.transactionIndex < 2 ^ 32 ∧ log.logIndex < 2 ^ 32

/-- The numbers of a payload. -/
structure PayloadFits (payload : OutboxPayload) : Prop where
  schemaVersion : payload.schemaVersion < 2 ^ 32
  blockHeight : payload.blockHeight < 2 ^ 64
  logCount : payload.logCount < 2 ^ 64
  logs : ∀ log ∈ payload.logs, LogFits log

/-- The numbers of a message. -/
structure MessageFits (message : KafkaOutboxMessage J) : Prop where
  schemaVersion : message.schemaVersion < 2 ^ 32
  eventId : -2 ^ 63 ≤ message.eventId ∧ message.eventId < 2 ^ 63
  blockHeight : message.blockHeight < 2 ^ 64
  ordering : message.ordering = ⟨message.eventId, message.blockHeight⟩

/-! ## Nothing is lost -/

theorem addressBytes_injective : Function.Injective addressBytes := by
  intro a b h
  have hmod : a.toNat % 256 ^ 20 = b.toNat % 256 ^ 20 := by
    refine mod_pow_eq fun j hj => ?_
    have hbyte := congrArg UInt8.toNat (List.map_inj_left.1 h (19 - j) (List.mem_range.2 (by omega)))
    rw [show 19 - (19 - j) = j by omega] at hbyte
    simpa using hbyte
  have ha := a.isLt
  have hb := b.isLt
  refine BitVec.eq_of_toNat_eq ?_
  rwa [Nat.mod_eq_of_lt (by omega), Nat.mod_eq_of_lt (by omega)] at hmod

theorem statusText_injective : Function.Injective statusText := by
  intro a b h
  cases a <;> cases b <;> first | rfl | simp [statusText] at h

theorem sourceText_injective : Function.Injective sourceText := by
  intro a b h
  cases a <;> cases b <;> first | rfl | simp [sourceText] at h

theorem kindText_injective : Function.Injective kindText := by
  intro a b h
  cases a <;> cases b <;> first | rfl | simp [kindText] at h

/-- A list written element by element. -/
theorem map_eq_map {α β γ : Type} {write : α → β} {f : α → γ} {a b : List α}
    (hwrite : ∀ x ∈ a, ∀ y ∈ b, write x = write y → f x = f y) (h : a.map write = b.map write) :
    a.map f = b.map f := by
  induction a generalizing b with
  | nil => rw [List.map_eq_nil_iff.1 h.symm]
  | cons x a ih =>
    cases b with
    | nil => cases h
    | cons y b =>
      obtain ⟨hhead, htail⟩ := List.cons.inj h
      rw [List.map_cons, List.map_cons, hwrite x List.mem_cons_self y List.mem_cons_self hhead,
        ih (fun x hx y hy =>
          hwrite x (List.mem_cons_of_mem _ hx) y (List.mem_cons_of_mem _ hy)) htail]

theorem map_injOn {α β : Type} {write : α → β} {a b : List α}
    (hwrite : ∀ x ∈ a, ∀ y ∈ b, write x = write y → x = y) (h : a.map write = b.map write) : a = b := by
  simpa using map_eq_map (f := id) hwrite h

section
variable {json : Json → Value}

theorem logValue_injective (hnull : ∀ event, json event ≠ .null) (hjson : Function.Injective json)
    {a b : RawLog} (ha : LogFits a) (hb : LogFits b) (h : logValue json a = logValue json b) : a = b := by
  have h := Value.ofFields_injective h rfl (by simp)
  simp only [List.cons.injEq, Prod.mk.injEq, true_and, and_true,
    Value.string.injEq, Value.array.injEq] at h
  obtain ⟨htransaction, hindex, htx, haddress, htopics, hdata, hdecoded, hversion⟩ := h
  have htransaction := Value.ofNat_injective (Nat.lt_trans ha.1 (by decide))
    (Nat.lt_trans hb.1 (by decide)) htransaction
  have hindex := Value.ofNat_injective (Nat.lt_trans ha.2 (by decide))
    (Nat.lt_trans hb.2 (by decide)) hindex
  have htx := hashText_injective htx
  have haddress := addressBytes_injective (hexBytes_injective haddress)
  have htopics := map_injOn (fun x _ y _ heq => hashText_injective (Value.string.inj heq)) htopics
  have hdata := hexBytes_injective hdata
  have hdecoded := Value.ofOption_injective hnull (fun x _ y _ heq => hjson heq) hdecoded
  have hversion := Value.ofOption_injective (fun x heq => (by cases heq))
    (fun x _ y _ heq => Value.string.inj heq) hversion
  cases a
  cases b
  simp_all

theorem payloadValue_injective (hnull : ∀ event, json event ≠ .null)
    (hjson : Function.Injective json) {a b : OutboxPayload} (ha : PayloadFits a) (hb : PayloadFits b)
    (h : payloadValue json a = payloadValue json b) : a = b := by
  have h := Value.ofFields_injective h rfl (by simp)
  simp only [List.cons.injEq, Prod.mk.injEq, true_and, and_true,
    Value.string.injEq, Value.array.injEq] at h
  obtain ⟨hversion, htransition, hchain, hhash, hparent, hheight, hstatus, hsource, hcount, hlogs⟩ := h
  have hversion := Value.ofNat_injective (Nat.lt_trans ha.schemaVersion (by decide))
    (Nat.lt_trans hb.schemaVersion (by decide)) hversion
  have htransition := kindText_injective htransition
  have hchain := toString_injective hchain
  have hhash := hashText_injective hhash
  have hparent := hashText_injective hparent
  have hheight := Value.ofNat_injective ha.blockHeight hb.blockHeight hheight
  have hstatus := Value.ofOption_injective (fun x heq => (by cases heq))
    (fun x _ y _ heq => statusText_injective (Value.string.inj heq)) hstatus
  have hsource := Value.ofOption_injective (fun x heq => (by cases heq))
    (fun x _ y _ heq => sourceText_injective (Value.string.inj heq)) hsource
  have hcount := Value.ofNat_injective ha.logCount hb.logCount hcount
  have hlogs := map_injOn (fun x hx y hy heq =>
    logValue_injective hnull hjson (ha.logs x hx) (hb.logs y hy) heq) hlogs
  cases a
  cases b
  simp_all

theorem ofInt_injective {m n : Int} (hm : -2 ^ 63 ≤ m ∧ m < 2 ^ 63) (hn : -2 ^ 63 ≤ n ∧ n < 2 ^ 63)
    (h : Value.ofInt m = Value.ofInt n) : m = n := by
  have hread := congrArg Value.asI64 h
  rw [Value.asI64_ofInt hm.1 hm.2, Value.asI64_ofInt hn.1 hn.2] at hread
  exact Option.some.inj hread

theorem messageValue_injective {payload : J → Value} {a b : KafkaOutboxMessage J} (ha : MessageFits a)
    (hb : MessageFits b) (hpayload : payload a.payload = payload b.payload → a.payload = b.payload)
    (h : messageValue payload a = messageValue payload b) : a = b := by
  have h := Value.ofFields_injective h rfl (by simp)
  simp only [List.cons.injEq, Prod.mk.injEq, true_and, and_true,
    Value.string.injEq] at h
  obtain ⟨hversion, hevent, hchain, hkind, hhash, hheight, -, hpayloads⟩ := h
  have hversion := Value.ofNat_injective (Nat.lt_trans ha.schemaVersion (by decide))
    (Nat.lt_trans hb.schemaVersion (by decide)) hversion
  have hevent := ofInt_injective ha.eventId hb.eventId hevent
  have hheight := Value.ofNat_injective ha.blockHeight hb.blockHeight hheight
  have hpayloads := hpayload hpayloads
  have hordering : a.ordering = b.ordering := by rw [ha.ordering, hb.ordering, hevent, hheight]
  cases a
  cases b
  simp_all

/-- A row of the writer, with its numbers in the widths of the source. -/
structure RowFits (eventId : Int) (row : Postgres.OutboxRow) : Prop where
  eventId : -2 ^ 63 ≤ eventId ∧ eventId < 2 ^ 63
  blockHeight : row.blockHeight < 2 ^ 64
  payload : PayloadFits row.payload

/-- The message of a row of the writer. -/
theorem message_of_row {chainId : Nat} {eventId : Int} {row : Postgres.OutboxRow}
    {message : KafkaOutboxMessage OutboxPayload}
    (h : rowToMessage (columns chainId eventId row) = .ok message) :
    message = {
      schemaVersion := 1
      eventId
      chainId := toString chainId
      transitionKind := kindText row.eventKind
      blockHash := hashText row.blockHash
      blockHeight := row.blockHeight
      ordering := ⟨eventId, row.blockHeight⟩
      payload := row.payload } := by
  have hheight : ¬ (columns chainId eventId row).blockHeight < 0 := Int.not_lt.2 (Int.natCast_nonneg _)
  have hlength : (columns chainId eventId row).blockHash.length = 32 := by simp [columns, hashBytes]
  unfold rowToMessage at h
  rw [if_neg hheight] at h
  dsimp only at h
  rw [if_neg (not_not_intro hlength)] at h
  cases h
  cases row with
  | mk kind hash height payload => cases kind <;> rfl

/-- **Messages lose nothing.** The messages of two outbox rows are the same JSON exactly if they are of
the same row: chain, `event_id`, kind, block, and all the payload says of the block and its logs. -/
theorem messages_lossless (hnull : ∀ event, json event ≠ .null) (hjson : Function.Injective json)
    {chainId chainId' : Nat} {eventId eventId' : Int} {row row' : Postgres.OutboxRow}
    {message message' : KafkaOutboxMessage OutboxPayload} (hfits : RowFits eventId row)
    (hfits' : RowFits eventId' row')
    (hmessage : rowToMessage (columns chainId eventId row) = .ok message)
    (hmessage' : rowToMessage (columns chainId' eventId' row') = .ok message') :
    messageValue (payloadValue json) message = messageValue (payloadValue json) message' ↔
      chainId = chainId' ∧ eventId = eventId' ∧ row = row' := by
  have heq := message_of_row hmessage
  have heq' := message_of_row hmessage'
  have hwidths : MessageFits message := by
    rw [heq]
    exact ⟨Nat.one_lt_two_pow (by decide), hfits.eventId, hfits.blockHeight, rfl⟩
  have hwidths' : MessageFits message' := by
    rw [heq']
    exact ⟨Nat.one_lt_two_pow (by decide), hfits'.eventId, hfits'.blockHeight, rfl⟩
  have hpayload : payloadValue json message.payload = payloadValue json message'.payload →
      message.payload = message'.payload := by
    rw [heq, heq']
    exact payloadValue_injective hnull hjson hfits.payload hfits'.payload
  constructor
  · intro h
    have hsame := messageValue_injective hwidths hwidths' hpayload h
    rw [heq, heq'] at hsame
    simp only [KafkaOutboxMessage.mk.injEq, true_and] at hsame
    obtain ⟨hevent, hchain, hkind, hhash, hheight, -, hpayloads⟩ := hsame
    refine ⟨toString_injective hchain, hevent, ?_⟩
    cases row
    cases row'
    simp_all [kindText_injective.eq_iff, hashText_injective.eq_iff]
  · rintro ⟨rfl, rfl, rfl⟩
    rw [heq, heq']

/-- An applied block with a log. -/
def tokenRow (decodedEvent : Option Json) : Postgres.OutboxRow where
  eventKind := .apply
  blockHash := 7
  blockHeight := 5
  payload := {
    schemaVersion := 1
    transition := .apply
    chainId := 1
    blockHash := 7
    parentHash := 6
    blockHeight := 5
    status := some .Safe
    statusSource := some .Native
    logCount := 1
    logs := [{
      transactionIndex := 0
      logIndex := 3
      txHash := 9
      address := 2
      topics := [4]
      data := []
      decodedEvent
      decoderVersion := none }] }

theorem tokenRow_fits (decodedEvent : Option Json) : RowFits 1 (tokenRow decodedEvent) := by
  constructor
  · decide
  · simp [tokenRow]
  · constructor <;> simp [tokenRow, LogFits]

/-- `messages_lossless` for a log before and after its event is decoded. -/
theorem messages_lossless_decoded : ∃ message message',
    rowToMessage (columns 1 1 (tokenRow none)) = .ok message ∧
    rowToMessage (columns 1 1 (tokenRow (some "Transfer"))) = .ok message' ∧
    messageValue (payloadValue Value.string) message ≠ messageValue (payloadValue Value.string) message' := by
  obtain ⟨message, hmessage, -⟩ := rowToMessage_columns 1 1 (tokenRow none)
  obtain ⟨message', hmessage', -⟩ := rowToMessage_columns 1 1 (tokenRow (some "Transfer"))
  refine ⟨message, message', hmessage, hmessage', fun h => ?_⟩
  have hrows := ((messages_lossless (fun _ heq => (by cases heq)) (fun _ _ heq => Value.string.inj heq)
    (tokenRow_fits none) (tokenRow_fits (some "Transfer")) hmessage hmessage').1 h).2.2
  exact absurd hrows (by decide)

/-! ## The consumer's line -/

/-- The line for a row of the writer. -/
def renderedRow (eventId : Int) (row : Postgres.OutboxRow) : String :=
  let transition := kindText row.eventKind
  let blockHeight := row.blockHeight
  let blockHash := hashText row.blockHash
  let decoded := (row.payload.logs.filter (·.decodedEvent.isSome)).length
  match row.eventKind with
  | .rollback => s!"rollback event_id={eventId} block_height={blockHeight} block_hash={blockHash}"
  | .apply =>
    s!"{transition} event_id={eventId} block_height={blockHeight} block_hash={blockHash} " ++
      s!"decoded_events={decoded}"

theorem isNull_eq_false {value : Value} (h : value ≠ .null) : value.isNull = false := by
  cases value <;> first | rfl | exact absurd rfl h

theorem get_decodedEvent (log : RawLog) :
    (logValue json log).get "decoded_event" = some (.ofOption json log.decodedEvent) := by
  simp [logValue, List.lookup]

/-- The decoded logs of a payload. -/
theorem decoded_count (hnull : ∀ event, json event ≠ .null) (logs : List RawLog) :
    (((logs.map (logValue json)).filterMap (Value.get "decoded_event")).filter (!·.isNull)).length =
      (logs.filter (·.decodedEvent.isSome)).length := by
  induction logs with
  | nil => rfl
  | cons log logs ih =>
    rw [List.map_cons, List.filterMap_cons_some (get_decodedEvent log)]
    cases hevent : log.decodedEvent with
    | none =>
      rw [List.filter_cons_of_neg (by simp [Value.ofOption, Value.isNull]),
        List.filter_cons_of_neg (by simp [hevent]), ih]
    | some event =>
      rw [List.filter_cons_of_pos (by simp [Value.ofOption, isNull_eq_false (hnull event)]),
        List.filter_cons_of_pos (by simp [hevent]), List.length_cons, List.length_cons, ih]

/-- **The line of a message.** No field is unknown. -/
theorem render_message (hnull : ∀ event, json event ≠ .null) {chainId : Nat} {eventId : Int}
    {row : Postgres.OutboxRow} {message : KafkaOutboxMessage OutboxPayload} (hfits : RowFits eventId row)
    (hmessage : rowToMessage (columns chainId eventId row) = .ok message) :
    renderDemoConsumerEvent (messageValue (payloadValue json) message) = renderedRow eventId row := by
  have hevent := Value.asI64_ofInt hfits.eventId.1 hfits.eventId.2
  have hheight := Value.asU64_ofNat hfits.blockHeight
  rw [message_of_row hmessage]
  cases hkind : row.eventKind with
  | rollback =>
    simp [renderDemoConsumerEvent, messageValue, renderedRow, List.lookup, hevent, hheight,
      hkind, kindText, Value.asStr]
    rfl
  | apply =>
    simp [renderDemoConsumerEvent, messageValue, payloadValue, renderedRow, List.lookup,
      hevent, hheight, hkind, kindText, Value.asStr, Value.asArray, ← decoded_count hnull]
    rfl

end

end Chainweave.Kafka
