import Taas.Dicts

/-!
`publish` of the FastStream service and `encode_msg`, with what they do to the caller's
message and header dict. Values are of any type; msgspec, the schema registry encoder and the
broker are parameters. An event is its fields: `as_dict` makes a new dict of them.
-/
namespace Taas.KafkaPublish

open Dicts

variable {V : Type}

inductive Error
  | msgspec (text : String)
  | schemaRegistry (text : String)
  | broker (text : String)
  | valueError (text : String)
  | notImplementedError (text : String)
  deriving DecidableEq

/-- msgspec, and the values that `encode_msg` tells apart. -/
structure Codec (V : Type) where
  isDict : V → Bool
  ofDict : Dict V → V
  ofBytes : ByteArray → V
  jsonEncode : V → Except String ByteArray
  msgpackEncode : V → Except String ByteArray
  isDict_ofBytes : ∀ b, isDict (ofBytes b) = false

inductive FieldEncoding | json | msgpack
  deriving DecidableEq

/-- The encoding of messages. Only Avro has one of fields, which the constructor checks. -/
inductive Encoding
  | json
  | msgpack
  | protobuf
  | schemaRegistryAvro (field : FieldEncoding)
  | unsupported (name : String)
  deriving DecidableEq

/-- `encode_event` of the schema registry encoder. -/
abbrev EncodeEvent (V : Type) := String → Dict V → Except Error ByteArray

section

variable (C : Codec V)

def encodeField (field : FieldEncoding) (payload : V) : Except Error ByteArray :=
  match field with
  | .json => (C.jsonEncode payload).mapError .msgspec
  | .msgpack => (C.msgpackEncode payload).mapError .msgspec

/-- `encode_msg` of a dict, with the dict that it leaves. -/
def encodeMsg (encoding : Encoding) (encodeEvent : EncodeEvent V) (channel : String)
    (data : Dict V) : Dict V × Except Error ByteArray :=
  match encoding with
  | .msgpack => (data, (C.msgpackEncode (C.ofDict data)).mapError .msgspec)
  | .protobuf => (data, .error (.notImplementedError "Protobuf encoding is not implemented yet."))
  | .schemaRegistryAvro field =>
    if channel = "" then
      (data, .error (.valueError
        "AsyncSchemaRegistryEncoder and channel are required for Avro encoding"))
    else
      match data.lookup "payload" with
      | some payload =>
        if C.isDict payload then
          match encodeField C field payload with
          | .ok encoded =>
            let data := data.insert "payload" (C.ofBytes encoded)
            (data, encodeEvent channel data)
          | .error e => (data, .error e)
        else (data, encodeEvent channel data)
      | none => (data, encodeEvent channel data)
  | .json => (data, (C.jsonEncode (C.ofDict data)).mapError .msgspec)
  | .unsupported name => (data, .error (.valueError ("Unsupported message encoding: " ++ name)))

end

inductive Message (V : Type)
  | event (fields : Dict V)
  | dict (entries : Dict V)

/-- The dict that is encoded: a new one for an event, the caller's own otherwise. -/
def Message.data : Message V → Dict V
  | event fields => fields
  | dict entries => entries

/-- The caller's message once that dict has become `data`. -/
def Message.after (data : Dict V) : Message V → Message V
  | event fields => event fields
  | dict _ => dict data

/-- The header dict; a value may be None. -/
abbrev Headers := Option (Dict (Option String))

structure Objects (V : Type) where
  message : Message V
  headers : Headers

inductive OrderingKey
  | none
  | str (s : String)
  | bytes (b : ByteArray)
  | other

/-- `key_bytes`: an empty key counts as missing. -/
def OrderingKey.keyBytes : OrderingKey → Option ByteArray
  | str s => if s = "" then Option.none else some s.toUTF8
  | bytes b => if b.size = 0 then Option.none else some b
  | none | other => Option.none

/-- The other arguments of a call, the schema registry encoder as it answers then, and what
the broker answers. -/
structure Call (V : Type) where
  channel : String
  orderingKey : OrderingKey := .none
  correlationId : Option String := none
  /-- `kwargs.get('traceparent')`. -/
  traceparent : Option String := none
  encodeEvent : EncodeEvent V
  send : Except Error Unit

structure Sent where
  value : ByteArray
  topic : String
  headers : Dict String
  key : Option ByteArray
  correlationId : Option String

/-- A call raises before it sends, or it sends and the broker answers. -/
inductive Attempt
  | raised (e : Error)
  | sent (s : Sent) (answer : Except Error Unit)

/-- `bool(s)`. -/
def truthy (s : Option String) : Bool := s.any (· ≠ "")

/-- `headers.pop('correlation_id', None)` unless the call has a correlation id. -/
def popCorrelationId (correlationId : Option String) (headers : Headers) :
    Option String × Headers :=
  if truthy correlationId then (correlationId, headers)
  else
    match headers with
    | some h =>
      let popped := (h.lookup "correlation_id").join
      (if truthy popped then popped else none, some (h.erase "correlation_id"))
    | none => (none, none)

/-- `headers.pop('traceparent')`. -/
def popTraceparent (traceparent : Option String) (headers : Headers) : Option String × Headers :=
  match headers with
  | some h =>
    let popped := (h.lookup "traceparent").join
    (if truthy popped then popped else traceparent, some (h.erase "traceparent"))
  | none => (traceparent, none)

def buildPublishHeaders (traceparent : Option String) (extra : Headers) : Dict String :=
  let headers : Dict String := match traceparent with
    | some t => if t = "" then ∅ else AList.singleton "traceparent" t
    | none => ∅
  match extra with
  | some extra => comprehension id extra ∪ headers
  | none => headers

/-- `publish`, with the objects that it leaves. -/
def publish (C : Codec V) (encoding : Encoding) (call : Call V) (o : Objects V) :
    Objects V × Attempt :=
  let (correlationId, headers) := popCorrelationId call.correlationId o.headers
  let (traceparent, headers) := popTraceparent call.traceparent headers
  let publishHeaders := buildPublishHeaders traceparent headers
  let (data, encoded) := encodeMsg C encoding call.encodeEvent call.channel o.message.data
  ({ message := o.message.after data, headers := headers },
    match encoded with
    | .error e => .raised e
    | .ok value => .sent {
        value := value
        topic := call.channel
        headers := publishHeaders.insert "content-type" "application/octet-stream"
        key := call.orderingKey.keyBytes
        correlationId := correlationId } call.send)

def publishAll (C : Codec V) (encoding : Encoding) : List (Call V) → Objects V →
    List (Objects V × Attempt)
  | [], _ => []
  | call :: calls, o =>
    let r := publish C encoding call o
    r :: publishAll C encoding calls r.1

/-- The call finds nothing to take out of the headers. -/
def HeadersStay (call : Call V) (headers : Headers) : Prop :=
  ∀ h, headers = some h →
    (truthy call.correlationId = false → "correlation_id" ∉ h) ∧ "traceparent" ∉ h

/-- The call encodes no payload in the caller's own dict: the encoding is not Avro, the
channel is empty, or the message is no dict with a dict under `payload` that can be encoded. -/
def MessageStays (C : Codec V) (encoding : Encoding) (call : Call V) (message : Message V) :
    Prop :=
  ∀ field entries payload encoded, encoding = .schemaRegistryAvro field → call.channel ≠ "" →
    message = .dict entries → entries.lookup "payload" = some payload →
      C.isDict payload = true → encodeField C field payload ≠ .ok encoded

variable {C : Codec V} {encoding : Encoding} {call : Call V} {o : Objects V}

theorem insert_ne {data : Dict V} {payload : V} (encoded : ByteArray)
    (hlookup : data.lookup "payload" = some payload) (hdict : C.isDict payload = true) :
    data.insert "payload" (C.ofBytes encoded) ≠ data := by
  intro h
  rw [← h, AList.lookup_insert] at hlookup
  rw [← Option.some.inj hlookup, C.isDict_ofBytes] at hdict
  exact Bool.false_ne_true hdict

theorem messageStays_avro {field : FieldEncoding} {data : Dict V} :
    MessageStays C (.schemaRegistryAvro field) call (.dict data) ↔
      (call.channel ≠ "" → ∀ payload, data.lookup "payload" = some payload →
        C.isDict payload = true → ∀ encoded, encodeField C field payload ≠ .ok encoded) := by
  constructor
  · intro h hchannel payload hlookup hdict encoded
    exact h field data payload encoded rfl hchannel rfl hlookup hdict
  · intro h field entries payload encoded hfield hchannel hdata hlookup hdict
    cases hfield
    cases hdata
    exact h hchannel payload hlookup hdict encoded

theorem encodeMsg_data (data : Dict V) :
    (encodeMsg C encoding call.encodeEvent call.channel data).1 = data ↔
      MessageStays C encoding call (.dict data) := by
  unfold encodeMsg
  cases encoding with
  | schemaRegistryAvro field =>
    rw [messageStays_avro]
    by_cases hchannel : call.channel = ""
    · simp [hchannel]
    · cases hlookup : data.lookup "payload" with
      | none => simp [hchannel]
      | some payload =>
        cases hdict : C.isDict payload with
        | false => simp [hchannel, hdict]
        | true =>
          cases hencode : encodeField C field payload with
          | error e => simp [hchannel, hdict, hencode]
          | ok encoded =>
            have hne := insert_ne encoded hlookup hdict
            simp [hchannel, hdict, hencode, hne]
  | json => simp [MessageStays]
  | msgpack => simp [MessageStays]
  | protobuf => simp [MessageStays]
  | unsupported name => simp [MessageStays]

theorem message_stays_iff (message : Message V) :
    message.after (encodeMsg C encoding call.encodeEvent call.channel message.data).1 = message ↔
      MessageStays C encoding call message := by
  cases message with
  | event fields => simp [Message.after, MessageStays]
  | dict entries => simp [Message.after, Message.data, encodeMsg_data]

theorem headers_stay_iff (headers : Headers) :
    (popTraceparent call.traceparent (popCorrelationId call.correlationId headers).2).2 =
      headers ↔ HeadersStay call headers := by
  unfold HeadersStay popCorrelationId
  cases headers with
  | none => cases truthy call.correlationId <;> simp [popTraceparent]
  | some h =>
    cases htruthy : truthy call.correlationId with
    | true => simp [popTraceparent, erase_eq_self_iff]
    | false =>
      simp only [Bool.false_eq_true, if_false, popTraceparent, Option.some.injEq, forall_eq',
        true_implies]
      constructor
      · intro herase
        constructor
        · intro hmem
          rw [← herase] at hmem
          simp [AList.mem_erase] at hmem
        · intro hmem
          rw [← herase] at hmem
          simp [AList.mem_erase] at hmem
      · rintro ⟨hcorrelation, htrace⟩
        rw [erase_eq_self_iff.mpr hcorrelation, erase_eq_self_iff.mpr htrace]

/-- A call leaves the caller's objects as they are exactly when it takes nothing out of the
headers and encodes no payload in place. -/
theorem publish_stays_iff : (publish C encoding call o).1 = o ↔
    HeadersStay call o.headers ∧ MessageStays C encoding call o.message := by
  obtain ⟨message, headers⟩ := o
  rw [← headers_stay_iff, ← message_stays_iff]
  simp only [publish, Objects.mk.injEq]
  exact and_comm

/-- Every call of a sequence that reuses its objects leaves them as they are and does what it
would do as the first, exactly when no call takes a correlation id or a traceparent out of the
headers or encodes the payload of a dict in place. -/
theorem publish_repeatable_iff (C : Codec V) (encoding : Encoding) (calls : List (Call V))
    (o : Objects V) :
    publishAll C encoding calls o =
        calls.map (fun call => (o, (publish C encoding call o).2)) ↔
      ∀ call ∈ calls, HeadersStay call o.headers ∧ MessageStays C encoding call o.message := by
  induction calls with
  | nil => simp [publishAll]
  | cons call calls ih =>
    simp only [publishAll, List.map_cons, List.cons.injEq, List.forall_mem_cons, Prod.ext_iff,
      and_true]
    rw [publish_stays_iff]
    constructor
    · rintro ⟨hfirst, hrest⟩
      rw [publish_stays_iff.mpr hfirst] at hrest
      exact ⟨hfirst, ih.mp hrest⟩
    · rintro ⟨hfirst, hrest⟩
      rw [publish_stays_iff.mpr hfirst]
      exact ⟨hfirst, ih.mpr hrest⟩

inductive Item
  | text (s : String)
  | emptyDict
  | bytes (b : ByteArray)
  | message

def items : Codec Item where
  isDict v := match v with
    | .emptyDict | .message => true
    | _ => false
  ofDict _ := .message
  ofBytes := .bytes
  jsonEncode
    | .text s => .ok ("\"" ++ s ++ "\"").toUTF8
    | .emptyDict => .ok "\x7b\x7d".toUTF8
    | .bytes _ => .error "not modelled"
    | .message => .ok "\x7b\"payload\":\x7b\x7d\x7d".toUTF8
  msgpackEncode _ := .error "not modelled"
  isDict_ofBytes _ := rfl

def outboxMessage : Message Item := .dict (AList.singleton "payload" .emptyDict)

def accepted : Call Item where
  channel := "orders"
  encodeEvent _ _ := .ok ByteArray.empty
  send := .ok ()

def Attempt.correlationId : Attempt → Option String
  | raised _ => none
  | sent s _ => s.correlationId

/-- The second of two calls has lost the correlation id. With Avro, the payload of the
caller's dict is bytes after one call. -/
theorem second_publish_differs :
    (¬ ∀ (C : Codec Item) (encoding : Encoding) (calls : List (Call Item)) (o : Objects Item),
      publishAll C encoding calls o =
        calls.map fun call => (o, (publish C encoding call o).2)) ∧
    (publishAll items .json [accepted, accepted]
      ⟨outboxMessage, some (AList.singleton "correlation_id" (some "c-1"))⟩).map
        (fun r => r.2.correlationId) = [some "c-1", none] ∧
    (publish items (.schemaRegistryAvro .json) accepted
      ⟨outboxMessage, none⟩).1.message.data.lookup "payload" = some (.bytes "\x7b\x7d".toUTF8) := by
  have hrun : (publishAll items .json [accepted, accepted]
      ⟨outboxMessage, some (AList.singleton "correlation_id" (some "c-1"))⟩).map
        (fun r => r.2.correlationId) = [some "c-1", none] := rfl
  refine ⟨?_, hrun, rfl⟩
  intro hall
  rw [hall, List.map_map] at hrun
  simp only [List.map_cons, List.map_nil, Function.comp_apply, List.cons.injEq, and_true] at hrun
  cases hrun.1.symm.trans hrun.2

end Taas.KafkaPublish
