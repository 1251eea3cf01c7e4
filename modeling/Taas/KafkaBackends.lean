import Taas.KafkaPublish

/-!
The record that the two Kafka services hand to the broker when the outbox poller or the
scheduler publishes, with no active trace. The pollers pass `ordering_key`, which is a
parameter of the FastStream service; the aiokafka service has `key` and drops the rest.
-/
namespace Taas.KafkaBackends

open Dicts KafkaPublish

variable {V : Type}

structure Record where
  topic : String
  value : ByteArray
  key : Option ByteArray
  headers : Dict ByteArray

def toAiokafkaHeaders (headers : Dict (Option String)) : Dict ByteArray :=
  comprehension (Option.map String.toUTF8) headers

/-- The headers of the record. `propagated` are those of the active trace. -/
def kafkaHeaders (propagated : Dict ByteArray) (headers : Headers) : Dict ByteArray :=
  match headers with
  | some h => if h.entries.isEmpty then propagated else toAiokafkaHeaders h
  | none => propagated

/-- `key_bytes` of the aiokafka service. -/
def aiokafkaKey : OrderingKey → Option ByteArray
  | .str s => some s.toUTF8
  | .bytes b => some b
  | .none | .other => none

/-- `publish` of the aiokafka service, up to the record. -/
def aiokafkaPublish (C : Codec V) (encoding : Encoding) (encodeEvent : EncodeEvent V)
    (propagated : Dict ByteArray) (channel : String) (message : Message V) (headers : Headers)
    (key : OrderingKey) : Except Error Record := do
  let encoded ← (encodeMsg C encoding encodeEvent channel message.data).2
  return {
    topic := channel
    value := encoded
    key := aiokafkaKey key
    headers := kafkaHeaders propagated headers }

/-- FastStream's broker, as documented: the headers of a record are those given, then a
correlation id, which it generates when none or an empty one is given, a content type and a reply
channel. -/
structure FastStreamBroker where
  headers : Dict String → Option String → Dict ByteArray
  given : ∀ h c k v, h.lookup k = some v → (headers h c).lookup k = some v.toUTF8
  correlationId : ∀ h c, c ≠ "" → h.lookup "correlation_id" = none →
    (headers h (some c)).lookup "correlation_id" = some c.toUTF8
  generated : ∀ h, h.lookup "correlation_id" = none →
    (headers h none).lookup "correlation_id" ≠ some "".toUTF8
  others : ∀ h c k, h.lookup k = none → k ∉ ["correlation_id", "content-type", "reply_to"] →
    (headers h c).lookup k = none

structure PollerCall (V : Type) where
  channel : String
  message : Message V
  headers : Headers
  orderingKey : OrderingKey

/-- The poller's `ordering_key` is no parameter of the aiokafka service, whose `key` stays
None. -/
def aiokafkaRecord (C : Codec V) (encoding : Encoding) (encodeEvent : EncodeEvent V)
    (call : PollerCall V) : Except Error Record :=
  aiokafkaPublish C encoding encodeEvent ∅ call.channel call.message call.headers .none

def fastStreamRecord (B : FastStreamBroker) (C : Codec V) (encoding : Encoding)
    (encodeEvent : EncodeEvent V) (call : PollerCall V) : Except Error Record :=
  let args : Call V := {
    channel := call.channel
    orderingKey := call.orderingKey
    encodeEvent := encodeEvent
    send := .ok () }
  match (publish C encoding args ⟨call.message, call.headers⟩).2 with
  | .raised e => .error e
  | .sent s _ => .ok {
      topic := s.topic
      value := s.value
      key := s.key
      headers := B.headers s.headers s.correlationId }

/-- Both calls raise, or they hand over records with one value, one key and the same headers
among those that the caller supplied. -/
def SameRecord (headers : Headers) : Except Error Record → Except Error Record → Prop
  | .ok a, .ok b => a.topic = b.topic ∧ a.value = b.value ∧ a.key = b.key ∧
      ∀ h k v, headers = some h → h.lookup k = some (some v) →
        a.headers.lookup k = b.headers.lookup k
  | .error _, .error _ => True
  | _, _ => False

/-- FastStream sends the caller's headers as they are: the correlation id and the traceparent
are not empty, and the content type is the one that it sets. -/
def HeadersPass (headers : Headers) : Prop :=
  ∀ h, headers = some h → h.lookup "correlation_id" ≠ some (some "") ∧
    h.lookup "traceparent" ≠ some (some "") ∧
    ∀ v, h.lookup "content-type" = some (some v) → v = "application/octet-stream"

variable {h : Dict (Option String)} {k v : String}

theorem kafkaHeaders_lookup (hk : h.lookup k = some (some v)) :
    (kafkaHeaders ∅ (some h)).lookup k = some v.toUTF8 := by
  have hne : h.entries.isEmpty = false := by
    cases hentries : h.entries with
    | nil => simp [AList.lookup, hentries] at hk
    | cons x l => rfl
  simp [kafkaHeaders, hne, toAiokafkaHeaders, lookup_comprehension, hk]

/-- The headers that the FastStream service gives to its broker, for those of the caller. -/
def givenHeaders (headers : Headers) : Dict String :=
  (buildPublishHeaders (popTraceparent none (popCorrelationId none headers).2).1
    (popTraceparent none (popCorrelationId none headers).2).2).insert
      "content-type" "application/octet-stream"

theorem givenHeaders_contentType :
    (givenHeaders (some h)).lookup "content-type" = some "application/octet-stream" :=
  AList.lookup_insert _

theorem lookup_buildPublishHeaders (t : Option String) (extra : Dict (Option String)) :
    (buildPublishHeaders t (some extra)).lookup k =
      ((extra.lookup k).join.or (if truthy t ∧ k = "traceparent" then t else none)) := by
  have hextra : (comprehension id extra).lookup k = (extra.lookup k).join := by
    rw [lookup_comprehension]
    cases extra.lookup k <;> rfl
  unfold buildPublishHeaders
  cases hk : (extra.lookup k).join with
  | some v =>
    have hmem : k ∈ comprehension id extra := by
      rw [← AList.lookup_isSome, hextra, hk]
      rfl
    rw [AList.lookup_union_left hmem, hextra, hk]
    rfl
  | none =>
    have hmem : k ∉ comprehension id extra := by
      rw [← AList.lookup_eq_none, hextra, hk]
    rw [AList.lookup_union_right hmem]
    cases t with
    | none => simp [truthy]
    | some t =>
      by_cases ht : t = ""
      · simp [truthy, ht]
      · by_cases hkt : k = "traceparent"
        · subst hkt
          simp [truthy, ht, ← AList.insert_empty]
        · simp [ht, hkt, ← AList.insert_empty, AList.lookup_insert_ne]

/-- What is given under a name other than the content type: what is left of the caller's
headers, or the traceparent taken out of them. -/
theorem givenHeaders_lookup (hk : k ≠ "content-type") :
    (givenHeaders (some h)).lookup k =
      (((h.erase "correlation_id").erase "traceparent").lookup k).join.or
        (if k = "traceparent" ∧ truthy (h.lookup "traceparent").join then
          (h.lookup "traceparent").join else none) := by
  have htrace : (h.erase "correlation_id").lookup "traceparent" = h.lookup "traceparent" :=
    AList.lookup_erase_ne (by simp)
  have hnone : truthy none = false := rfl
  unfold givenHeaders popCorrelationId popTraceparent
  rw [AList.lookup_insert_ne hk]
  simp only [hnone, Bool.false_eq_true, if_false, lookup_buildPublishHeaders, htrace]
  cases htruthy : truthy (h.lookup "traceparent").join with
  | false => simp [hnone]
  | true => simp [htruthy]

theorem givenHeaders_correlationId : (givenHeaders (some h)).lookup "correlation_id" = none := by
  have herased : ((h.erase "correlation_id").erase "traceparent").lookup "correlation_id" =
      none := by
    rw [AList.lookup_erase_ne (by simp), AList.lookup_erase]
  rw [givenHeaders_lookup (by simp), herased]
  simp

theorem givenHeaders_traceparent (hv : h.lookup "traceparent" = some (some v)) :
    (givenHeaders (some h)).lookup "traceparent" = if v = "" then none else some v := by
  rw [givenHeaders_lookup (by simp), AList.lookup_erase, hv]
  by_cases hempty : v = "" <;> simp [truthy, hempty]

theorem givenHeaders_other (hk : k ∉ ["correlation_id", "content-type", "traceparent"])
    (hv : h.lookup k = some (some v)) : (givenHeaders (some h)).lookup k = some v := by
  simp only [List.mem_cons, List.not_mem_nil, or_false, not_or] at hk
  rw [givenHeaders_lookup hk.2.1, AList.lookup_erase_ne hk.2.2, AList.lookup_erase_ne hk.1, hv]
  rfl

variable {B : FastStreamBroker} {C : Codec V} {encoding : Encoding} {encodeEvent : EncodeEvent V}
  {call : PollerCall V}

theorem toUTF8_inj {s t : String} : s.toUTF8 = t.toUTF8 ↔ s = t := String.toByteArray_inj

/-- The record header that FastStream sends under a name that the caller supplied. -/
theorem fastStream_lookup_iff (B : FastStreamBroker) (hv : h.lookup k = some (some v)) :
    (B.headers (givenHeaders (some h)) (popCorrelationId none (some h)).1).lookup k =
        some v.toUTF8 ↔
      (k = "correlation_id" → v ≠ "") ∧ (k = "traceparent" → v ≠ "") ∧
        (k = "content-type" → v = "application/octet-stream") := by
  by_cases hcorrelation : k = "correlation_id"
  · subst hcorrelation
    have hnone := givenHeaders_correlationId (h := h)
    by_cases hempty : v = ""
    · have hpopped : (popCorrelationId none (some h)).1 = none := by
        simp [popCorrelationId, truthy, hv, hempty]
      rw [hpopped, hempty]
      exact iff_of_false (B.generated _ hnone) (by simp)
    · have hpopped : (popCorrelationId none (some h)).1 = some v := by
        simp [popCorrelationId, truthy, hv, hempty]
      rw [hpopped]
      exact iff_of_true (B.correlationId _ v hempty hnone) (by simp [hempty])
  by_cases htrace : k = "traceparent"
  · subst htrace
    have hgiven := givenHeaders_traceparent hv
    by_cases hempty : v = ""
    · rw [if_pos hempty] at hgiven
      rw [B.others _ _ _ hgiven (by simp)]
      simp [hempty]
    · rw [if_neg hempty] at hgiven
      exact iff_of_true (B.given _ _ _ _ hgiven) (by simp [hempty])
  by_cases hcontent : k = "content-type"
  · subst hcontent
    rw [B.given _ _ _ _ givenHeaders_contentType, Option.some.injEq, toUTF8_inj]
    simp [eq_comm]
  · have hgiven := givenHeaders_other (by simp [hcorrelation, htrace, hcontent]) hv
    exact iff_of_true (B.given _ _ _ _ hgiven) (by simp [hcorrelation, htrace, hcontent])

theorem headersPass_iff : HeadersPass (some h) ↔ ∀ k v, h.lookup k = some (some v) →
    (k = "correlation_id" → v ≠ "") ∧ (k = "traceparent" → v ≠ "") ∧
      (k = "content-type" → v = "application/octet-stream") := by
  constructor
  · intro hpass k v hv
    obtain ⟨hcorrelation, htrace, hcontent⟩ := hpass h rfl
    refine ⟨?_, ?_, ?_⟩
    · rintro rfl rfl
      exact hcorrelation hv
    · rintro rfl rfl
      exact htrace hv
    · rintro rfl
      exact hcontent v hv
  · intro hall h' hh'
    obtain rfl := Option.some.inj hh'
    exact ⟨fun hv => (hall _ _ hv).1 rfl rfl, fun hv => (hall _ _ hv).2.1 rfl rfl,
      fun v hv => (hall _ v hv).2.2 rfl⟩

theorem aiokafkaRecord_eq {value : ByteArray}
    (hencode : (encodeMsg C encoding encodeEvent call.channel call.message.data).2 = .ok value) :
    aiokafkaRecord C encoding encodeEvent call =
      .ok ⟨call.channel, value, none, kafkaHeaders ∅ call.headers⟩ := by
  rw [aiokafkaRecord, aiokafkaPublish, hencode]
  rfl

theorem fastStreamRecord_eq {value : ByteArray}
    (hencode : (encodeMsg C encoding encodeEvent call.channel call.message.data).2 = .ok value) :
    fastStreamRecord B C encoding encodeEvent call =
      .ok ⟨call.channel, value, call.orderingKey.keyBytes,
        B.headers (givenHeaders call.headers) (popCorrelationId none call.headers).1⟩ := by
  simp only [fastStreamRecord, publish, hencode, givenHeaders]

theorem records_error {e : Error}
    (hencode : (encodeMsg C encoding encodeEvent call.channel call.message.data).2 = .error e) :
    aiokafkaRecord C encoding encodeEvent call = .error e ∧
      fastStreamRecord B C encoding encodeEvent call = .error e := by
  constructor
  · rw [aiokafkaRecord, aiokafkaPublish, hencode]
    rfl
  · simp only [fastStreamRecord, publish, hencode]

/-- The two services hand over the same record exactly when the message cannot be encoded,
or the call has no ordering key and headers that FastStream passes on as they are. -/
theorem same_record_iff (B : FastStreamBroker) (C : Codec V) (encoding : Encoding)
    (encodeEvent : EncodeEvent V) (call : PollerCall V) :
    SameRecord call.headers (aiokafkaRecord C encoding encodeEvent call)
        (fastStreamRecord B C encoding encodeEvent call) ↔
      (∃ e, (encodeMsg C encoding encodeEvent call.channel call.message.data).2 = .error e) ∨
        call.orderingKey.keyBytes = none ∧ HeadersPass call.headers := by
  cases hencode : (encodeMsg C encoding encodeEvent call.channel call.message.data).2 with
  | error e =>
    obtain ⟨haiokafka, hfastStream⟩ := records_error (B := B) hencode
    rw [haiokafka, hfastStream]
    exact iff_of_true trivial (Or.inl ⟨e, rfl⟩)
  | ok value =>
    have hkey : none = call.orderingKey.keyBytes ↔ call.orderingKey.keyBytes = none := eq_comm
    rw [aiokafkaRecord_eq hencode, fastStreamRecord_eq hencode]
    simp only [SameRecord, true_and, hkey, reduceCtorEq, exists_false, false_or]
    refine and_congr_right fun _ => ?_
    cases hheaders : call.headers with
    | none => simp [HeadersPass]
    | some h =>
      rw [headersPass_iff]
      constructor
      · intro hsame k v hv
        have heq := hsame h k v rfl hv
        rw [kafkaHeaders_lookup hv] at heq
        exact (fastStream_lookup_iff B hv).mp heq.symm
      · intro hpass h' k v hh' hv
        obtain rfl := Option.some.inj hh'
        rw [kafkaHeaders_lookup hv, (fastStream_lookup_iff B hv).mpr (hpass k v hv)]

theorem lookup_comprehension_toUTF8 (h : Dict String) (k : String) :
    (comprehension (fun s => some s.toUTF8) h).lookup k = (h.lookup k).map String.toUTF8 := by
  rw [lookup_comprehension]
  cases h.lookup k <;> rfl

/-- A broker that adds the correlation id, generated as `generated` when it is missing. -/
def broker : FastStreamBroker where
  headers h c := comprehension (fun s => some s.toUTF8) h ∪
    AList.singleton "correlation_id" ((c.filter fun c => c ≠ "").getD "generated").toUTF8
  given h c k v hv := by
    have hk : (comprehension (fun s => some s.toUTF8) h).lookup k = some v.toUTF8 := by
      rw [lookup_comprehension_toUTF8, hv, Option.map_some]
    rw [AList.lookup_union_left (AList.lookup_isSome.mp (by rw [hk]; rfl)), hk]
  correlationId h c hne hc := by
    rw [AList.lookup_union_right]
    · rw [← AList.insert_empty, AList.lookup_insert]
      simp [Option.filter, hne]
    · rw [← AList.lookup_eq_none, lookup_comprehension_toUTF8, hc, Option.map_none]
  generated h hc := by
    rw [AList.lookup_union_right]
    · change some "generated".toUTF8 ≠ some "".toUTF8
      simp
    · rw [← AList.lookup_eq_none, lookup_comprehension_toUTF8, hc, Option.map_none]
  others h c k hk hnot := by
    have hne : k ≠ "correlation_id" := by
      rintro rfl
      simp at hnot
    rw [AList.lookup_union_right, ← AList.insert_empty, AList.lookup_insert_ne hne,
      AList.lookup_empty]
    rw [← AList.lookup_eq_none, lookup_comprehension_toUTF8, hk, Option.map_none]

/-- What the outbox poller publishes for a row with an ordering key. -/
def orderMessage : PollerCall Item where
  channel := "orders"
  message := outboxMessage
  headers := some ∅
  orderingKey := .str "order-7"

/-- The ordering key is the key of FastStream's record, and aiokafka's record has none. -/
theorem ordering_key_dropped :
    (¬ ∀ (B : FastStreamBroker) (C : Codec Item) (encoding : Encoding)
      (encodeEvent : EncodeEvent Item) (call : PollerCall Item),
      SameRecord call.headers (aiokafkaRecord C encoding encodeEvent call)
        (fastStreamRecord B C encoding encodeEvent call)) ∧
    ∃ a b, aiokafkaRecord items .json (fun _ _ => .ok ByteArray.empty) orderMessage = .ok a ∧
      fastStreamRecord broker items .json (fun _ _ => .ok ByteArray.empty) orderMessage = .ok b ∧
      a.key = none ∧ b.key = some "order-7".toUTF8 := by
  have hencode : (encodeMsg items .json (fun _ _ => .ok ByteArray.empty) orderMessage.channel
      orderMessage.message.data).2 = .ok "\x7b\"payload\":\x7b\x7d\x7d".toUTF8 := rfl
  have haiokafka : aiokafkaRecord items .json (fun _ _ => .ok ByteArray.empty) orderMessage =
      .ok ⟨_, _, none, _⟩ := aiokafkaRecord_eq hencode
  have hfastStream : fastStreamRecord broker items .json (fun _ _ => .ok ByteArray.empty)
      orderMessage = .ok ⟨_, _, some "order-7".toUTF8, _⟩ := fastStreamRecord_eq hencode
  refine ⟨?_, _, _, haiokafka, hfastStream, rfl, rfl⟩
  intro hall
  have hsame := hall broker items .json (fun _ _ => .ok ByteArray.empty) orderMessage
  rw [haiokafka, hfastStream] at hsame
  obtain ⟨-, -, hkey, -⟩ := hsame
  cases hkey

end Taas.KafkaBackends
