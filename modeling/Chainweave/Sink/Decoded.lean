import Chainweave.Sink.Message
import Chainweave.Sink.Registry

/-!
# Decoded events as JSON

`crates/chainweave-sink/src/abi.rs`: the JSON that stands for a decoded event, over the
types and values of `alloy`'s `dyn-abi`.

A word of `bytesN` is written up to its size, so the bytes behind it are lost; `trim` drops
them. In `args` a later argument takes the place of an earlier one of its name.

* `decodeLog_decoded`: it is what `decode_log` stores.
* `solValueJson_inj`: of one type, values that are written alike are alike.
* `arguments_inj`: so are the arguments of an event.
* `decoded_event_lossless`: the JSON of an event tells the event and its arguments.
-/
namespace Chainweave.Decoded

open Serde Chainweave.Chain Chainweave.Kafka Chainweave.Postgres

/-! ## Types and values -/

/-- `DynSolType` of `alloy`. -/
inductive DynSolType where
  | bool
  | int (bits : Nat)
  | uint (bits : Nat)
  | fixedBytes (size : Nat)
  | address
  | function
  | bytes
  | string
  | array (inner : DynSolType)
  | fixedArray (inner : DynSolType) (size : Nat)
  | tuple (inners : List DynSolType)

/-- `DynSolValue` of `alloy`. -/
inductive DynSolValue where
  | bool (value : Bool)
  | int (value : Int) (bits : Nat)
  | uint (value : Nat) (bits : Nat)
  | fixedBytes (word : List UInt8) (size : Nat)
  | address (value : Address)
  | function (value : List UInt8)
  | bytes (value : List UInt8)
  | string (value : String)
  | array (values : List DynSolValue)
  | fixedArray (values : List DynSolValue)
  | tuple (values : List DynSolValue)

namespace DynSolType

mutual
/-- `DynSolType::matches` -/
inductive Matches : DynSolType → DynSolValue → Prop
  | bool (value : Bool) : Matches .bool (.bool value)
  | int (value : Int) (bits : Nat) : Matches (.int bits) (.int value bits)
  | uint (value bits : Nat) : Matches (.uint bits) (.uint value bits)
  | fixedBytes (word : List UInt8) (size : Nat) : Matches (.fixedBytes size) (.fixedBytes word size)
  | address (value : Address) : Matches .address (.address value)
  | function (value : List UInt8) : Matches .function (.function value)
  | bytes (value : List UInt8) : Matches .bytes (.bytes value)
  | string (value : String) : Matches .string (.string value)
  | array {inner : DynSolType} {values : List DynSolValue} (h : ∀ value ∈ values, Matches inner value) :
    Matches (.array inner) (.array values)
  | fixedArray {inner : DynSolType} {values : List DynSolValue}
    (h : ∀ value ∈ values, Matches inner value) :
    Matches (.fixedArray inner values.length) (.fixedArray values)
  | tuple {inners : List DynSolType} {values : List DynSolValue} (h : MatchesEach inners values) :
    Matches (.tuple inners) (.tuple values)

inductive MatchesEach : List DynSolType → List DynSolValue → Prop
  | nil : MatchesEach [] []
  | cons {inner : DynSolType} {inners : List DynSolType} {value : DynSolValue} {values : List DynSolValue}
    (head : Matches inner value) (tail : MatchesEach inners values) :
    MatchesEach (inner :: inners) (value :: values)
end

/-- What a topic holds of a value: of one that may be longer than a word, its hash. -/
def topicType : DynSolType → DynSolType
  | .bool => .bool
  | .int bits => .int bits
  | .uint bits => .uint bits
  | .fixedBytes size => .fixedBytes size
  | .address => .address
  | .function => .function
  | _ => .fixedBytes 32

end DynSolType

namespace DynSolValue

mutual
/-- Without the bytes behind the size of a word. -/
def trim : DynSolValue → DynSolValue
  | .fixedBytes word size => .fixedBytes (word.take size) size
  | .array values => .array (trimAll values)
  | .fixedArray values => .fixedArray (trimAll values)
  | .tuple values => .tuple (trimAll values)
  | value => value

def trimAll : List DynSolValue → List DynSolValue
  | [] => []
  | value :: values => value.trim :: trimAll values
end

theorem trimAll_eq (values : List DynSolValue) : trimAll values = values.map trim := by
  induction values with
  | nil => rfl
  | cons value values ih => rw [trimAll, ih, List.map_cons]

end DynSolValue

/-- `EventParam` of `alloy`. -/
structure EventParam where
  name : String
  ty : String
  indexed : Bool
  /-- `resolve`, the type that `ty` spells -/
  resolve : DynSolType

/-- `Event` of `alloy`. -/
structure Event where
  name : String
  /-- `Event::signature` -/
  signature : String
  /-- `Event::selector` -/
  selector : BlockHash
  inputs : List EventParam

/-- `DecodedEvent` of `alloy`. -/
structure DecodedEvent where
  indexed : List DynSolValue
  body : List DynSolValue

/-- What `decode_log_parts` answers with. -/
structure Event.Decodes (event : Event) (decoded : DecodedEvent) : Prop where
  indexed : DynSolType.MatchesEach
    ((event.inputs.filter (·.indexed)).map (·.resolve.topicType)) decoded.indexed
  body : DynSolType.MatchesEach ((event.inputs.filter (!·.indexed)).map (·.resolve)) decoded.body

def DecodedEvent.trim (decoded : DecodedEvent) : DecodedEvent :=
  ⟨decoded.indexed.map DynSolValue.trim, decoded.body.map DynSolValue.trim⟩

/-! ## The source -/

/-- mirrors crates/chainweave-sink/src/abi.rs:337-343 -/
def parameterName (input : EventParam) (position : Nat) : String :=
  if input.name.isEmpty then s!"arg{position}" else input.name

/-- One element of `ordered_args`. -/
structure Argument where
  name : String
  ty : String
  indexed : Bool
  value : Value

section
variable (checksum : Address → String)

mutual
/-- `checksum` is `Address::to_string`.
mirrors crates/chainweave-sink/src/abi.rs:345-359 -/
def solValueJson : DynSolValue → Value
  | .bool value => .bool value
  | .int value _ => .string (toString value)
  | .uint value _ => .string (toString value)
  | .fixedBytes word size => .string (hexBytes (word.take size))
  | .address value => .string (checksum value)
  | .function value => .string (hexBytes value)
  | .bytes value => .string (hexBytes value)
  | .string value => .string value
  | .array values => .array (solValuesJson values)
  | .fixedArray values => .array (solValuesJson values)
  | .tuple values => .array (solValuesJson values)

def solValuesJson : List DynSolValue → List Value
  | [] => []
  | value :: values => solValueJson value :: solValuesJson values
end

/-- The loop of `decoded_event_json`, over the inputs from `position` on and what is left of the two
iterators.
mirrors crates/chainweave-sink/src/abi.rs:304-324 -/
def arguments (position : Nat) : List EventParam → List DynSolValue → List DynSolValue → List Argument
  | [], _, _ => []
  | input :: inputs, indexed, body =>
    let value := if input.indexed then indexed.head? else body.head?
    { name := parameterName input position
      ty := input.ty
      indexed := input.indexed
      value := value.elim .null (solValueJson checksum) } ::
        arguments (position + 1) inputs (if input.indexed then indexed.tail else indexed)
          (if input.indexed then body else body.tail)

end

/-- mirrors crates/chainweave-sink/src/abi.rs:318-323 -/
def Argument.json (argument : Argument) : Value := .ofFields [
  ("name", .string argument.name),
  ("type", .string argument.ty),
  ("indexed", .bool argument.indexed),
  ("value", argument.value)]

/-- `args.insert`, argument by argument.
mirrors crates/chainweave-sink/src/abi.rs:317 -/
def insertArgs (args : String → Option Value) (arguments : List Argument) : String → Option Value :=
  arguments.foldl (fun args argument => Function.update args argument.name (some argument.value)) args

/-- mirrors crates/chainweave-sink/src/abi.rs:299-335 -/
def decodedEventJson (checksum : Address → String) (standard : AbiStandard) (decoderVersion : String)
    (event : Event) (decoded : DecodedEvent) : Value :=
  let orderedArgs := arguments checksum 0 event.inputs decoded.indexed decoded.body
  .ofFields [
    ("schema_version", .ofNat 1),
    ("standard", .string standard.asStr),
    ("decoder_version", .string decoderVersion),
    ("event", .string event.name),
    ("signature", .string event.signature),
    ("args", .object (insertArgs (fun _ => none) orderedArgs)),
    ("ordered_args", .array (orderedArgs.map Argument.json))]

section
variable (checksum : Address → String) (write : Value → Json)
  (decodeLogParts : Event → List BlockHash → List UInt8 → Option DecodedEvent)

/-- An event of a decoder. `decodeLogParts` is `Event::decode_log_parts`, `write` the text of a JSON value.
mirrors crates/chainweave-sink/src/abi.rs:184-199 -/
def abiEvent (standard : AbiStandard) (decoderVersion : String) (event : Event) : AbiEvent where
  selector := event.selector
  decodeLogParts topics data := (decodeLogParts event topics data).map fun decoded =>
    write (decodedEventJson checksum standard decoderVersion event decoded)

/-- What `decode_log` stores for a log: the JSON of one of the decoder's events, which the first topic
selects. -/
theorem decodeLog_decoded {registry : AbiRegistry} {log : RawLog} {standard : AbiStandard}
    {decoderVersion version : String} {events : List Event} {decodedEvent : Json}
    (hcontract : registry.contracts log.address = some
      ⟨decoderVersion, events.map (abiEvent checksum write decodeLogParts standard decoderVersion)⟩)
    (h : registry.decodeLog log = .decoded decodedEvent version) :
    version = decoderVersion ∧ ∃ event ∈ events, log.topics.head? = some event.selector ∧
      ∃ decoded, decodeLogParts event log.topics log.data = some decoded ∧
        decodedEvent = write (decodedEventJson checksum standard decoderVersion event decoded) := by
  unfold AbiRegistry.decodeLog at h
  rw [hcontract] at h
  cases htopic : log.topics.head? with
  | none => simp [htopic] at h
  | some topic =>
    simp only [htopic] at h
    split at h
    · rename_i found hfound
      cases h
      obtain ⟨abi, hmem, hdecoded⟩ := List.exists_of_findSome?_eq_some hfound
      obtain ⟨habi, hselector⟩ := List.mem_filter.1 hmem
      obtain ⟨event, hevent, rfl⟩ := List.mem_map.1 habi
      obtain ⟨decoded, hparts, hjson⟩ := Option.map_eq_some_iff.1 hdecoded
      have hselector : event.selector = topic := of_decide_eq_true hselector
      exact ⟨rfl, event, hevent, by rw [hselector], decoded, hparts, hjson.symm⟩
    · split at h <;> cases h

end

/-! ## Values -/

section
variable {checksum : Address → String}

/-- A sign is no digit. -/
theorem repr_ne_signed (n : Nat) (text : String) : Nat.repr n ≠ "-" ++ text := by
  intro h
  have hmem : '-' ∈ (Nat.repr n).toList := by rw [h]; simp
  rw [Nat.repr_eq_ofList_toDigits, String.toList_ofList] at hmem
  exact absurd (Nat.isDigit_of_mem_toDigits (by decide) (by decide) hmem) (by decide)

theorem int_toString_injective {a b : Int} (h : toString a = toString b) : a = b := by
  cases a with
  | ofNat m =>
    cases b with
    | ofNat n => rw [toString_injective h]
    | negSucc n => exact absurd h (repr_ne_signed m _)
  | negSucc m =>
    cases b with
    | ofNat n => exact absurd h.symm (repr_ne_signed n _)
    | negSucc n => rw [Nat.succ.inj (toString_injective ((String.append_right_inj _).1 h))]

theorem solValuesJson_eq (values : List DynSolValue) :
    solValuesJson checksum values = values.map (solValueJson checksum) := by
  induction values with
  | nil => rfl
  | cons value values ih => rw [solValuesJson, ih, List.map_cons]

mutual
/-- The bytes behind the size of a word are not written. -/
theorem solValueJson_trim (value : DynSolValue) :
    solValueJson checksum value.trim = solValueJson checksum value := by
  cases value with
  | fixedBytes word size =>
    simp only [DynSolValue.trim, solValueJson, List.take_take, Nat.min_self]
  | array values => simp only [DynSolValue.trim, solValueJson, solValuesJson_trim values]
  | fixedArray values => simp only [DynSolValue.trim, solValueJson, solValuesJson_trim values]
  | tuple values => simp only [DynSolValue.trim, solValueJson, solValuesJson_trim values]
  | _ => rfl

theorem solValuesJson_trim (values : List DynSolValue) :
    solValuesJson checksum (DynSolValue.trimAll values) = solValuesJson checksum values := by
  cases values with
  | nil => rfl
  | cons value values =>
    simp only [DynSolValue.trimAll, solValuesJson, solValueJson_trim value, solValuesJson_trim values]
end

/-- A checksum is the address in hexadecimal, some of the letters in upper case. -/
def Checksummed (checksum : Address → String) : Prop :=
  ∀ address, (checksum address).toList.map Char.toLower = (hexBytes (addressBytes address)).toList

theorem Checksummed.injective (h : Checksummed checksum) : Function.Injective checksum := by
  intro a b heq
  refine addressBytes_injective (hexBytes_injective (String.toList_injective ?_))
  rw [← h a, ← h b, heq]

/-- The elements of an array. -/
theorem trimAll_inj {inner : DynSolType} {values values' : List DynSolValue}
    (hinner : ∀ v w, inner.Matches v → inner.Matches w →
      solValueJson checksum v = solValueJson checksum w → v.trim = w.trim)
    (hvalues : ∀ value ∈ values, inner.Matches value) (hvalues' : ∀ value ∈ values', inner.Matches value)
    (h : solValuesJson checksum values = solValuesJson checksum values') :
    DynSolValue.trimAll values = DynSolValue.trimAll values' := by
  rw [solValuesJson_eq, solValuesJson_eq] at h
  rw [DynSolValue.trimAll_eq, DynSolValue.trimAll_eq]
  exact map_eq_map (fun v hv w hw => hinner v w (hvalues v hv) (hvalues' w hw)) h

mutual
/-- Of one type, values that are written alike are alike. -/
theorem solValueJson_inj (hchecksum : Checksummed checksum) (ty : DynSolType) (v w : DynSolValue)
    (hv : ty.Matches v) (hw : ty.Matches w) (h : solValueJson checksum v = solValueJson checksum w) :
    v.trim = w.trim := by
  cases hv with
  | bool a =>
    cases hw with
    | bool b => rw [Value.bool.inj h]
  | int a bits =>
    cases hw with
    | int b => rw [int_toString_injective (Value.string.inj h)]
  | uint a bits =>
    cases hw with
    | uint b => rw [toString_injective (Value.string.inj h)]
  | fixedBytes a size =>
    cases hw with
    | fixedBytes b => simp only [DynSolValue.trim, hexBytes_injective (Value.string.inj h)]
  | address a =>
    cases hw with
    | address b => rw [hchecksum.injective (Value.string.inj h)]
  | function a =>
    cases hw with
    | function b => rw [hexBytes_injective (Value.string.inj h)]
  | bytes a =>
    cases hw with
    | bytes b => rw [hexBytes_injective (Value.string.inj h)]
  | string a =>
    cases hw with
    | string b => rw [Value.string.inj h]
  | @array inner a ha =>
    cases hw with
    | @array _ b hb =>
      simp only [DynSolValue.trim]
      rw [trimAll_inj (solValueJson_inj hchecksum inner) ha hb (Value.array.inj h)]
  | @fixedArray inner a ha =>
    generalize hsize : a.length = size at hw
    cases hw with
    | @fixedArray _ b hb =>
      simp only [DynSolValue.trim]
      rw [trimAll_inj (solValueJson_inj hchecksum inner) ha hb (Value.array.inj h)]
  | @tuple inners a ha =>
    cases hw with
    | @tuple _ b hb =>
      simp only [DynSolValue.trim]
      rw [solValuesJson_inj hchecksum inners a b ha hb (Value.array.inj h)]

theorem solValuesJson_inj (hchecksum : Checksummed checksum) (inners : List DynSolType)
    (values values' : List DynSolValue) (hvalues : DynSolType.MatchesEach inners values)
    (hvalues' : DynSolType.MatchesEach inners values')
    (h : solValuesJson checksum values = solValuesJson checksum values') :
    DynSolValue.trimAll values = DynSolValue.trimAll values' := by
  cases hvalues with
  | nil =>
    cases hvalues' with
    | nil => rfl
  | @cons inner rest v vs hhead htail =>
    cases hvalues' with
    | @cons _ _ w ws hhead' htail' =>
      obtain ⟨hvalue, hrest⟩ := List.cons.inj h
      simp only [DynSolValue.trimAll]
      rw [solValueJson_inj hchecksum inner v w hhead hhead' hvalue,
        solValuesJson_inj hchecksum rest vs ws htail htail' hrest]
end

/-! ## Arguments -/

/-- The values of the arguments, and no more, are those of the event. -/
theorem arguments_inj (hchecksum : Checksummed checksum) {inputs : List EventParam} {position : Nat}
    {indexed indexed' body body' : List DynSolValue}
    (hindexed : DynSolType.MatchesEach ((inputs.filter (·.indexed)).map (·.resolve.topicType)) indexed)
    (hindexed' : DynSolType.MatchesEach ((inputs.filter (·.indexed)).map (·.resolve.topicType)) indexed')
    (hbody : DynSolType.MatchesEach ((inputs.filter (!·.indexed)).map (·.resolve)) body)
    (hbody' : DynSolType.MatchesEach ((inputs.filter (!·.indexed)).map (·.resolve)) body')
    (h : arguments checksum position inputs indexed body =
      arguments checksum position inputs indexed' body') :
    indexed.map DynSolValue.trim = indexed'.map DynSolValue.trim ∧
      body.map DynSolValue.trim = body'.map DynSolValue.trim := by
  induction inputs generalizing position indexed indexed' body body' with
  | nil =>
    cases hindexed
    cases hindexed'
    cases hbody
    cases hbody'
    exact ⟨rfl, rfl⟩
  | cons input inputs ih =>
    obtain ⟨hvalue, hrest⟩ := List.cons.inj h
    simp only [Argument.mk.injEq, true_and] at hvalue
    cases hkind : input.indexed with
    | true =>
      simp only [hkind, List.filter_cons, if_true, Bool.not_true, Bool.false_eq_true, if_false,
        List.map_cons] at hindexed hindexed' hbody hbody' hvalue hrest
      cases hindexed with
      | @cons _ _ v vs hhead htail =>
        cases hindexed' with
        | @cons _ _ w ws hhead' htail' =>
          obtain ⟨hindexeds, hbodies⟩ := ih htail htail' hbody hbody' hrest
          have hsame := solValueJson_inj hchecksum _ v w hhead hhead' hvalue
          exact ⟨by rw [List.map_cons, List.map_cons, hsame, hindexeds], hbodies⟩
    | false =>
      simp only [hkind, List.filter_cons, if_true, Bool.not_false, Bool.false_eq_true, if_false,
        List.map_cons] at hindexed hindexed' hbody hbody' hvalue hrest
      cases hbody with
      | @cons _ _ v vs hhead htail =>
        cases hbody' with
        | @cons _ _ w ws hhead' htail' =>
          obtain ⟨hindexeds, hbodies⟩ := ih hindexed hindexed' htail htail' hrest
          have hsame := solValueJson_inj hchecksum _ v w hhead hhead' hvalue
          exact ⟨hindexeds, by rw [List.map_cons, List.map_cons, hsame, hbodies]⟩

theorem arguments_trim (inputs : List EventParam) (position : Nat) (indexed body : List DynSolValue) :
    arguments checksum position inputs (indexed.map DynSolValue.trim) (body.map DynSolValue.trim) =
      arguments checksum position inputs indexed body := by
  have hjson : solValueJson checksum ∘ DynSolValue.trim = solValueJson checksum :=
    funext solValueJson_trim
  have hhead : ∀ values : List DynSolValue,
      (values.map DynSolValue.trim).head?.elim .null (solValueJson checksum) =
        values.head?.elim .null (solValueJson checksum) := by
    intro values
    cases values with
    | nil => rfl
    | cons value values => exact solValueJson_trim value
  induction inputs generalizing position indexed body with
  | nil => rfl
  | cons input inputs ih =>
    cases hkind : input.indexed with
    | true => simp only [arguments, hkind, if_true, hhead, ← List.map_tail, ih]
    | false =>
      simp only [arguments, hkind, Bool.false_eq_true, if_false, hhead, ← List.map_tail, ih]

theorem Argument.json_injective : Function.Injective Argument.json := by
  intro a b h
  have h := Value.ofFields_injective h rfl (by simp)
  simp only [List.cons.injEq, Prod.mk.injEq, true_and, and_true, Value.string.injEq,
    Value.bool.injEq] at h
  cases a
  cases b
  simp_all

/-- Of the arguments of a name the last one counts. -/
theorem insertArgs_last (args : String → Option Value) (before after : List Argument) (argument : Argument)
    (h : ∀ other ∈ after, other.name ≠ argument.name) :
    insertArgs args (before ++ argument :: after) argument.name = some argument.value := by
  induction after using List.reverseRecOn with
  | nil => simp [insertArgs]
  | append_singleton after other ih =>
    have hother := h other (by simp)
    have hrest := ih fun x hx => h x (List.mem_append_left _ hx)
    simp only [insertArgs, List.foldl_append, List.foldl_cons, List.foldl_nil] at hrest ⊢
    rw [Function.update_of_ne hother.symm, hrest]

/-! ## Events -/

theorem asStr_injective : Function.Injective AbiStandard.asStr := by
  intro a b h
  cases a <;> cases b <;> first | rfl | simp [AbiStandard.asStr] at h

/-- **A decoded event tells its log.** The events of a standard differ in their signatures. Then two
events, of whatever contracts, are the same JSON exactly if standard, decoder version, event and arguments
are the same, but for the bytes behind the size of a `bytesN`; and `args` has the arguments by name, the
last one of each. -/
theorem decoded_event_lossless (hchecksum : Checksummed checksum) {standard standard' : AbiStandard}
    {decoderVersion decoderVersion' : String} {event event' : Event} {decoded decoded' : DecodedEvent}
    (h : event.Decodes decoded) (h' : event'.Decodes decoded')
    (hsignature : standard = standard' → event.signature = event'.signature → event = event') :
    (decodedEventJson checksum standard decoderVersion event decoded =
        decodedEventJson checksum standard' decoderVersion' event' decoded' ↔
      standard = standard' ∧ decoderVersion = decoderVersion' ∧ event = event' ∧
        decoded.trim = decoded'.trim) ∧
    ∀ before argument after,
      arguments checksum 0 event.inputs decoded.indexed decoded.body = before ++ argument :: after →
      (∀ other ∈ after, other.name ≠ argument.name) →
      ((decodedEventJson checksum standard decoderVersion event decoded).get "args").bind
        (Value.get argument.name) = some argument.value := by
  refine ⟨⟨fun heq => ?_, ?_⟩, fun before argument after hsplit hlast => ?_⟩
  · have hfields := Value.ofFields_injective heq rfl (by simp)
    simp only [List.cons.injEq, Prod.mk.injEq, true_and, and_true, Value.string.injEq,
      Value.array.injEq] at hfields
    obtain ⟨hstandard, hversion, -, htext, -, hordered⟩ := hfields
    have hstandard := asStr_injective hstandard
    obtain rfl := hsignature hstandard htext
    have harguments := map_injOn (fun a _ b _ hjson => Argument.json_injective hjson) hordered
    obtain ⟨hindexed, hbody⟩ :=
      arguments_inj hchecksum h.indexed h'.indexed h.body h'.body harguments
    exact ⟨hstandard, hversion, rfl, by rw [DecodedEvent.trim, DecodedEvent.trim, hindexed, hbody]⟩
  · rintro ⟨rfl, rfl, rfl, htrim⟩
    obtain ⟨hindexed, hbody⟩ := DecodedEvent.mk.inj htrim
    have harguments : arguments checksum 0 event.inputs decoded.indexed decoded.body =
        arguments checksum 0 event.inputs decoded'.indexed decoded'.body := by
      rw [← arguments_trim, hindexed, hbody, arguments_trim]
    simp only [decodedEventJson, harguments]
  · have hget := insertArgs_last (fun _ => none) before after argument hlast
    have hargs : (decodedEventJson checksum standard decoderVersion event decoded).get "args" =
        some (.object (insertArgs (fun _ => none) (before ++ argument :: after))) := by
      simp [decodedEventJson, List.lookup, hsplit]
    rw [hargs]
    exact hget

end

/-! ## A transfer -/

/-- An address of digits only, which have no case. -/
def digitsOnly (address : Address) : String := hexBytes (addressBytes address)

theorem toLower_digitChar {n : Nat} (h : n < 16) : (Nat.digitChar n).toLower = Nat.digitChar n := by
  have hall : ∀ n : Fin 16, (Nat.digitChar n).toLower = Nat.digitChar n := by decide
  exact hall ⟨n, h⟩

/-- A hexadecimal text has no letter in upper case. -/
theorem toLower_hexBytes {bytes : List UInt8} {c : Char} (h : c ∈ (hexBytes bytes).toList) :
    c.toLower = c := by
  simp only [hexBytes, String.toList_append, String.toList_ofList, List.mem_append,
    List.mem_flatMap] at h
  obtain h | ⟨byte, -, h⟩ := h
  · have hmark : c = '0' ∨ c = 'x' := by simpa using h
    obtain rfl | rfl := hmark
    · rfl
    · rfl
  · have hbyte := byte.toNat_lt
    simp only [List.mem_cons, List.not_mem_nil, or_false] at h
    obtain rfl | rfl := h
    · exact toLower_digitChar (by omega)
    · exact toLower_digitChar (by omega)

theorem digitsOnly_checksummed : Checksummed digitsOnly := fun _ =>
  (List.map_congr_left fun _ => toLower_hexBytes).trans (List.map_id _)

/-- `Transfer` of ERC-20. -/
def transferEvent : Event where
  name := "Transfer"
  signature := "Transfer(address,address,uint256)"
  selector := 0xddf252ad1be2c89b69c2b068fc378daa952ba7f163c4a11628f55a4df523b3ef
  inputs := [⟨"from", "address", true, .address⟩, ⟨"to", "address", true, .address⟩,
    ⟨"value", "uint256", false, .uint 256⟩]

def transferOf (value : Nat) : DecodedEvent :=
  ⟨[.address 0x1111111111111111111111111111111111111111, .address 0x2222222222222222222222222222222222222222],
    [.uint value 256]⟩

theorem transferEvent_decodes (value : Nat) : transferEvent.Decodes (transferOf value) :=
  ⟨.cons (.address _) (.cons (.address _) .nil), .cons (.uint value 256) .nil⟩

/-- `decoded_event_lossless` for two transfers that differ in the value. -/
theorem decoded_event_lossless_transfer :
    decodedEventJson digitsOnly .erc20 "erc20:v1" transferEvent (transferOf 7) ≠
      decodedEventJson digitsOnly .erc20 "erc20:v1" transferEvent (transferOf 8) := by
  intro heq
  have hsame := ((decoded_event_lossless digitsOnly_checksummed (transferEvent_decodes 7)
    (transferEvent_decodes 8) fun _ _ => rfl).1.1 heq).2.2.2
  simp [transferOf, DecodedEvent.trim, DynSolValue.trim] at hsame

end Chainweave.Decoded
