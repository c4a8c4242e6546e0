import Chainweave.Sink.Tables

/-!
# Decoding logs

`crates/chainweave-sink/src/abi.rs`: the registry fills the decoder columns of a log
and touches nothing else of it.

What an event makes of the topics and data is the ABI library's
(`decode_log_parts`), with the JSON built from it; here a field of the event.
-/
namespace Chainweave.Postgres

open Chainweave.Chain

/-- One event of an ABI. -/
structure AbiEvent where
  selector : BlockHash
  decodeLogParts : List BlockHash → List UInt8 → Option Json

/-- mirrors crates/chainweave-sink/src/abi.rs:19-24 -/
structure ContractDecoder where
  decoderVersion : String
  events : List AbiEvent

/-- mirrors crates/chainweave-sink/src/abi.rs:14-17 -/
structure AbiRegistry where
  contracts : Address → Option ContractDecoder

/-- mirrors crates/chainweave-sink/src/abi.rs:282-290 -/
inductive DecodeResult where
  | decoded (decodedEvent : Json) (decoderVersion : String)
  | unknownAbi
  | unknownSignature
  | decodeFailure
  deriving DecidableEq, Repr

/-- mirrors crates/chainweave-sink/src/abi.rs:48-54 -/
structure DecodeReport where
  decoded : Nat := 0
  unknownAbi : Nat := 0
  unknownSignature : Nat := 0
  decodeFailures : Nat := 0
  deriving DecidableEq, Repr

/-- mirrors crates/chainweave-sink/src/abi.rs:271-281 -/
def DecodeReport.record (self : DecodeReport) : DecodeResult → DecodeReport
  | .decoded _ _ => { self with decoded := self.decoded + 1 }
  | .unknownAbi => { self with unknownAbi := self.unknownAbi + 1 }
  | .unknownSignature => { self with unknownSignature := self.unknownSignature + 1 }
  | .decodeFailure => { self with decodeFailures := self.decodeFailures + 1 }

namespace AbiRegistry

/-- mirrors crates/chainweave-sink/src/abi.rs:166-212 -/
def decodeLog (self : AbiRegistry) (log : RawLog) : DecodeResult :=
  match self.contracts log.address, log.topics.head? with
  | none, _ => .unknownAbi
  | some _, none => .unknownSignature
  | some decoder, some topic =>
    let events := decoder.events.filter (·.selector = topic)
    match events.findSome? fun event => event.decodeLogParts log.topics log.data with
    | some decodedEvent => .decoded decodedEvent decoder.decoderVersion
    | none => if events.isEmpty then .unknownSignature else .decodeFailure

/-- mirrors crates/chainweave-sink/src/abi.rs:122-152 -/
def decodeLogInPlace (self : AbiRegistry) (log : RawLog) : RawLog :=
  match self.decodeLog log with
  | .decoded event version => { log with decodedEvent := some event, decoderVersion := some version }
  | _ => { log with decodedEvent := none, decoderVersion := none }

/-- mirrors crates/chainweave-sink/src/abi.rs:153-164 -/
def decodeLogsInPlace (self : AbiRegistry) (logs : List RawLog) : List RawLog :=
  logs.map self.decodeLogInPlace

end AbiRegistry

end Chainweave.Postgres
