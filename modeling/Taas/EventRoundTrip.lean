import Mathlib.Data.List.Basic
import Taas.PlainValues

/-!
Events whose fields hold plain values, encoded and decoded again. msgspec writes a time as a
text in JSON; in MessagePack a naive time as a text and an aware time as the same instant in
UTC. Decoding is untyped, so a text becomes a time again only in a field whose annotation
names `datetime`.
-/
namespace Taas.MsgEncoder

open Python

namespace Value

/-- The limits of the formats: decimal texts of 4300 digits, as in Python's own conversions, and
MessagePack's 64-bit integers, 32-bit lengths, and timestamps in UTC. -/
def fits (fmt : MessageEncodingType) (v : Value) : Bool :=
  match fmt with
  | .json =>
    match v with
    | int n => n.natAbs < 10 ^ 4300
    | _ => true
  | .msgpack =>
    match v with
    | int n => -2 ^ 63 ≤ n ∧ n < 2 ^ 64
    | str s => s.utf8ByteSize < 2 ^ 32
    | list vs => vs.length < 2 ^ 32
    | dict entries =>
      entries.length < 2 ^ 32 ∧ (keys entries).all fun s => s.utf8ByteSize < 2 ^ 32
    | datetime t => t.civil.utcoffset = Option.none ∨ t.utc.isSome
    | _ => true

/-- The format has room for the value. -/
def writable (fmt : MessageEncodingType) : Value → Bool := everywhere (fits fmt)

/-- The format has no time of this kind and takes a text. -/
def textual (fmt : MessageEncodingType) (t : Datetime) : Bool :=
  fmt = .json ∨ t.civil.utcoffset = Option.none

/-- What comes back for a time. -/
def written (fmt : MessageEncodingType) (t : Datetime) : Value :=
  if textual fmt t then str (rfc3339 t.civil) else t.utc.elim none datetime

/-- What comes back for a value. -/
def image (fmt : MessageEncodingType) : Value → Value := mapDatetimes (written fmt)

/-- The text of a time gives the time back. -/
def readable (t : Datetime) : Bool :=
  (∀ o ∈ t.civil.utcoffset, o % 60000000 = 0) ∧ ¬ t.civil.ambiguous

/-- A time that comes back as an equal time. -/
def timeKept (fmt : MessageEncodingType) : Value → Bool
  | datetime t => !textual fmt t && !t.civil.ambiguous
  | _ => true

def timesKept (fmt : MessageEncodingType) : Value → Bool := everywhere (timeKept fmt)

/-- A field with this annotation comes back as it was. -/
def restored (fmt : MessageEncodingType) (hint : TypeHint) : Value → Bool
  | datetime t =>
    if textual fmt t then isDatetimeType hint && readable t else !t.civil.ambiguous
  | str s => !(isDatetimeType hint && (fromisoformat s).isSome)
  | v => v.timesKept fmt

end Value

def Msgspec.encode (s : Msgspec) (fmt : MessageEncodingType) : Value → Except String ByteArray :=
  match fmt with
  | .json => s.jsonEncode
  | .msgpack => s.msgpackEncode

/-- What bytes decode to; JSON is decoded from text. -/
def Msgspec.decode (s : Msgspec) (fmt : MessageEncodingType) (b : ByteArray) : Option Value :=
  match fmt with
  | .json => (String.fromUTF8? b).bind fun text => (s.jsonDecode text).toOption
  | .msgpack => (s.msgpackDecode b).toOption

/-- What msgspec does with a plain value. -/
structure Msgspec.Documented (s : Msgspec) (fmt : MessageEncodingType) (v : Value) : Prop where
  writes : v.writable fmt → ∃ b, s.encode fmt v = .ok b ∧ s.decode fmt b = some (v.image fmt)
  raises : ¬ v.writable fmt → ∀ b, s.encode fmt v = .ok b → s.decode fmt b = none

/-- Its fields hold plain values. -/
def Event.Plain (e : Event) : Prop := ∀ f ∈ e.cls.fields, (e.value f.name).plain

/-- `a == b` of Structs. -/
def Event.Eq (a b : Event) : Prop :=
  a.cls = b.cls ∧ ∀ f ∈ b.cls.fields, (a.value f.name).eq (b.value f.name)

/-- The decoded message is an instance of the same class, equal to the event. -/
def Encoder.RoundTrips (m : Encoder) (fmt : MessageEncodingType) (e : Event) : Prop :=
  ∃ b e', m.encodeMsg fmt e = .ok b ∧ m.decodeMsg fmt b = .ok (.event e') ∧ e'.Eq e

/-- The serializer name is the one from `__post_init__`, the format has room for the values, and
every field comes back. -/
structure Event.Preserved (e : Event) (fmt : MessageEncodingType) : Prop where
  serializer : e.value "m_serializer" = .str (getSerializerName e.cls)
  writable : (Value.dict e.asDict).writable fmt
  fields : ∀ f ∈ e.cls.fields, f.name ≠ "m_serializer" →
    (e.value f.name).restored fmt f.hint

variable {m : Encoder} {fmt : MessageEncodingType} {e e' : Event} {v : Value} {hint : TypeHint}

namespace Value

theorem eq_written {t : Datetime} (hw : fits fmt (datetime t)) :
    (written fmt t).eq (datetime t) = timeKept fmt (datetime t) := by
  cases ht : textual fmt t with
  | true => simp [written, timeKept, ht, eq]
  | false =>
    obtain ⟨u, hu⟩ : ∃ u, t.utc = some u := by
      cases fmt with
      | json => simp [textual] at ht
      | msgpack =>
        have hoffset : t.civil.utcoffset ≠ Option.none := by simpa [textual] using ht
        simpa [fits, hoffset, Option.isSome_iff_exists] using hw
    have heq := utc_eq_iff hu
    cases ha : t.civil.ambiguous <;> simpa [written, timeKept, ht, hu, eq, ha] using heq

/-- A plain value that the format has room for comes back equal exactly when its times do. -/
theorem image_eq (hplain : v.plain) (hw : v.writable fmt) :
    (v.image fmt).eq v = v.timesKept fmt := by
  unfold image timesKept
  rw [eq_mapDatetimes hplain]
  apply everywhere_congr hw
  intro w hw
  cases w with
  | datetime t => exact eq_written hw
  | _ => rfl

theorem parse_text_iff (t : Datetime) : (parseField hint (str (rfc3339 t.civil))).eq (datetime t) ↔
    isDatetimeType hint ∧ readable t := by
  have hreadable : readable t ↔ ∃ u, fromisoformat (rfc3339 t.civil) = some u ∧ u.eq t := by
    rw [rfc3339_round_trip]
    simp [readable]
  rw [hreadable]
  cases hhint : isDatetimeType hint with
  | false => simp [parseField, hhint, eq]
  | true => cases hparse : fromisoformat (rfc3339 t.civil) <;> simp [parseField, hhint, hparse, eq]

/-- With texts parsed in an annotated field, the value comes back exactly when it is restored. -/
theorem parseField_eq_iff (hplain : v.plain) (hw : v.writable fmt) :
    (parseField hint (v.image fmt)).eq v ↔ v.restored fmt hint := by
  have himage := image_eq hplain hw
  cases v with
  | datetime t =>
    cases ht : textual fmt t with
    | false =>
      have htime : parseField hint (image fmt (datetime t)) = image fmt (datetime t) := by
        simp only [image, mapDatetimes, written, ht, Bool.false_eq_true, if_false]
        cases t.utc <;> rfl
      rw [htime, himage]
      simp [restored, timesKept, everywhere, timeKept, ht]
    | true =>
      have htext : image fmt (datetime t) = str (rfc3339 t.civil) := by
        simp [image, mapDatetimes, written, ht]
      rw [htext, parse_text_iff]
      simp [restored, ht]
  | str s =>
    cases hhint : isDatetimeType hint with
    | false => simp [image, mapDatetimes, parseField, hhint, restored, eq]
    | true =>
      cases hparse : fromisoformat s <;>
        simp [image, mapDatetimes, parseField, hhint, restored, eq, hparse]
  | _ =>
    simp only [restored, ← himage]
    rfl

end Value

/-- What msgspec decodes for an event, by field. -/
def Event.received (e : Event) (fmt : MessageEncodingType) : List (Value × Value) :=
  e.cls.fields.map fun f => (.str f.name, (e.value f.name).image fmt)

/-- The arguments from which the event is constructed again. -/
def Event.arguments (e : Event) (fmt : MessageEncodingType) : List (String × Value) :=
  e.cls.fields.map fun f => (f.name, parseField f.hint ((e.value f.name).image fmt))

theorem find_field {fields : List Field} (hnodup : (fields.map Field.name).Nodup) {f : Field}
    (hf : f ∈ fields) : (fields.find? fun f' => f'.name = f.name) = some f := by
  induction fields with
  | nil => cases hf
  | cons f' fields ih =>
    obtain ⟨hnot, hnodup⟩ := List.nodup_cons.mp hnodup
    rcases List.mem_cons.mp hf with rfl | hf
    · simp
    · have hne : f'.name ≠ f.name := by
        intro heq
        exact hnot (heq ▸ List.mem_map_of_mem hf)
      simpa [hne] using ih hnodup hf

theorem lookup_fields {α : Type} (fields : List Field) (g : Field → α) (name : String) :
    (fields.map fun f => (f.name, g f)).lookup name =
      (fields.find? fun f => f.name = name).map g := by
  induction fields with
  | nil => rfl
  | cons f fields ih =>
    rw [List.map_cons, List.lookup_cons, ih]
    by_cases heq : f.name = name
    · simp [heq]
    · simp [heq, beq_false_of_ne (Ne.symm heq)]

theorem image_asDict (fmt : MessageEncodingType) (e : Event) :
    (Value.dict e.asDict).image fmt = .dict (e.received fmt) := by
  simp [Value.image, Value.mapDatetimes, Value.mapEntries_eq, Event.asDict, Event.received]

theorem hints_lookup {f : Field} (hf : f ∈ e.cls.fields) :
    e.cls.hints.lookup f.name = some f.hint := by
  rw [EventClass.hints, List.lookup_append, lookup_fields, find_field e.cls.nodup hf]
  rfl

theorem filtered_received (fmt : MessageEncodingType) (e : Event) :
    filtered e.cls.hints (e.received fmt) = e.arguments fmt := by
  unfold filtered Event.received Event.arguments
  rw [List.filterMap_map, ← List.filterMap_eq_map]
  refine List.filterMap_congr fun f hf => ?_
  simp [hints_lookup hf]

theorem unknownKeys_received (fmt : MessageEncodingType) (e : Event) :
    unknownKeys e.cls.hints (e.received fmt) = [] := by
  unfold unknownKeys Event.received
  rw [List.filter_eq_nil_iff]
  intro k hk
  simp only [List.map_map, List.mem_map] at hk
  obtain ⟨f, hf, rfl⟩ := hk
  simp [hints_lookup hf]

theorem keys_received (fmt : MessageEncodingType) (e : Event) :
    Value.keys (e.received fmt) = e.cls.fields.map Field.name := by
  unfold Value.keys Event.received
  rw [List.filterMap_map, ← List.filterMap_eq_map]
  rfl

theorem get_received {f : Field} (hf : f ∈ e.cls.fields) :
    get (e.received fmt) f.name = some ((e.value f.name).image fmt) := by
  apply Value.get_of_mem
  · rw [keys_received]
    exact e.cls.nodup
  · exact List.mem_map_of_mem hf

theorem accepts_arguments (fmt : MessageEncodingType) (e : Event) :
    Accepts e.cls (e.arguments fmt) := by
  have hnames : (e.arguments fmt).map Prod.fst = e.cls.fields.map Field.name := by
    simp [Event.arguments]
  constructor
  · intro x hx
    rw [← hnames]
    exact List.mem_map_of_mem hx
  · intro f hf _
    rw [hnames]
    exact List.mem_map_of_mem hf

theorem serializer_field (cls : EventClass) : ∃ f ∈ cls.fields, f.name = "m_serializer" := by
  have hbase : "m_serializer" ∈ baseFields.map Field.name := by decide
  obtain ⟨f, hf, hname⟩ := List.mem_map.mp hbase
  have hmem := cls.base f hf
  rw [hname] at hmem
  exact List.mem_map.mp hmem

/-- An event under its own serializer name is reconstructed as an instance of its class. -/
theorem reconstruct_received (hserializer : e.value "m_serializer" = .str (getSerializerName e.cls))
    (hregistered : m.classOf (.str (getSerializerName e.cls)) = e.cls)
    (hresolvable : e.cls.resolvable) :
    m.reconstructEvent (.dict (e.received fmt)) =
      .ok (.event (m.instanceOf e.cls (e.arguments fmt))) := by
  obtain ⟨f, hf, hname⟩ := serializer_field e.cls
  have hnames : NamesClass (.dict (e.received fmt)) (e.received fmt)
      (.str (getSerializerName e.cls)) := by
    refine ⟨rfl, ?_, by simp⟩
    rw [← hname, get_received hf, hname, hserializer]
    rfl
  have hdescribes : m.Describes (e.received fmt) (.str (getSerializerName e.cls)) := by
    constructor
    · intro _
      rfl
    · rw [hregistered]
      exact hresolvable
    · rw [hregistered, unknownKeys_received]
      rfl
    · rw [hregistered, filtered_received]
      exact accepts_arguments fmt e
  rw [(reconstruct_spec hnames).1 hdescribes, Encoder.eventOf, hregistered, filtered_received]

theorem instanceOf_value {f : Field} (hf : f ∈ e.cls.fields) (hne : f.name ≠ "m_serializer") :
    (m.instanceOf e.cls (e.arguments fmt)).value f.name =
      parseField f.hint ((e.value f.name).image fmt) := by
  have harg : (e.arguments fmt).lookup f.name =
      some (parseField f.hint ((e.value f.name).image fmt)) := by
    rw [Event.arguments, lookup_fields, find_field e.cls.nodup hf]
    rfl
  simp [Encoder.instanceOf, hne, find_field e.cls.nodup hf, Encoder.fieldValue, harg]

theorem eventOf_reconstruct {entries : List (Value × Value)} {serializer : Value}
    (hn : NamesClass v entries serializer) (h : m.reconstructEvent v = .ok (.event e)) :
    e = m.eventOf entries serializer := by
  obtain ⟨hdescribes, hraises⟩ := reconstruct_spec (m := m) hn
  by_cases hd : m.Describes entries serializer
  · rw [hdescribes hd] at h
    exact (Message.event.inj (Except.ok.inj h)).symm
  · obtain ⟨text, ht⟩ := hraises hd
    rw [ht] at h
    cases h

theorem reconstruct_serializer (h : m.reconstructEvent v = .ok (.event e)) :
    e.value "m_serializer" = .str (getSerializerName e.cls) := by
  by_cases hn : ∃ entries serializer, NamesClass v entries serializer
  · obtain ⟨entries, serializer, hn⟩ := hn
    rw [eventOf_reconstruct hn h]
    rfl
  · simp [reconstruct_plain hn] at h

theorem cls_of_reconstruct {entries : List (Value × Value)} {serializer : Value}
    (hn : NamesClass v entries serializer) (h : m.reconstructEvent v = .ok (.event e)) :
    e.cls = m.classOf serializer := by
  rw [eventOf_reconstruct hn h]
  rfl

theorem encodeMsg_ok_iff {b : ByteArray} :
    m.encodeMsg fmt e = .ok b ↔ m.msgspec.encode fmt (.dict e.asDict) = .ok b := by
  cases fmt with
  | json =>
    simp only [Encoder.encodeMsg, Msgspec.encode]
    cases m.msgspec.jsonEncode (.dict e.asDict) <;> simp [Except.mapError]
  | msgpack =>
    simp only [Encoder.encodeMsg, Msgspec.encode]
    cases m.msgspec.msgpackEncode (.dict e.asDict) <;> simp [Except.mapError]

theorem decodeMsg_ok_iff {b : ByteArray} {msg : Message} : m.decodeMsg fmt b = .ok msg ↔
    ∃ v, m.msgspec.decode fmt b = some v ∧ m.reconstructEvent v = .ok msg := by
  cases fmt with
  | json =>
    simp only [Encoder.decodeMsg, Encoder.decodeJson, Msgspec.decode]
    cases String.fromUTF8? b with
    | none => simp [Except.mapError]
    | some text =>
      cases hv : m.msgspec.jsonDecode text with
      | error err => simp [hv, Except.mapError, Except.toOption, bind, Except.bind]
      | ok v =>
        cases hr : m.reconstructEvent v <;>
          simp [hv, Except.mapError, Except.toOption, bind, Except.bind, hr]
  | msgpack =>
    simp only [Encoder.decodeMsg, Encoder.decodeMsgpack, Msgspec.decode]
    cases hv : m.msgspec.msgpackDecode b with
    | error err => simp [Except.mapError, Except.toOption, bind, Except.bind]
    | ok v =>
      cases hr : m.reconstructEvent v <;>
        simp [Except.mapError, Except.toOption, bind, Except.bind, hr]

theorem writable_field (h : (Value.dict e.asDict).writable fmt) {f : Field}
    (hf : f ∈ e.cls.fields) : (e.value f.name).writable fmt :=
  (Value.everywhere_dict_iff.mp h).2 _ (List.mem_map_of_mem hf)

theorem roundTrips_iff (hplain : e.Plain)
    (hmsgspec : m.msgspec.Documented fmt (.dict e.asDict))
    (hregistered : m.classOf (.str (getSerializerName e.cls)) = e.cls)
    (hresolvable : e.cls.resolvable) : m.RoundTrips fmt e ↔ e.Preserved fmt := by
  constructor
  · intro h
    obtain ⟨b, e', hencode, hdecode, hcls, hfields⟩ := h
    rw [encodeMsg_ok_iff] at hencode
    obtain ⟨v, hv, hreconstruct⟩ := decodeMsg_ok_iff.mp hdecode
    have hwritable : (Value.dict e.asDict).writable fmt := by
      by_contra hnot
      simp [hmsgspec.raises hnot b hencode] at hv
    obtain ⟨b', hencode', hdecode'⟩ := hmsgspec.writes hwritable
    obtain rfl : b = b' := Except.ok.inj (hencode.symm.trans hencode')
    rw [hdecode', image_asDict] at hv
    obtain rfl := Option.some.inj hv
    have hserializer : e.value "m_serializer" = .str (getSerializerName e.cls) := by
      obtain ⟨f, hf, hname⟩ := serializer_field e.cls
      have heq := hfields f hf
      rw [hname, reconstruct_serializer hreconstruct, hcls] at heq
      exact Value.eq_of_str_eq heq
    rw [reconstruct_received hserializer hregistered hresolvable] at hreconstruct
    obtain rfl := Message.event.inj (Except.ok.inj hreconstruct)
    refine ⟨hserializer, hwritable, fun f hf hne => ?_⟩
    have heq := hfields f hf
    rw [instanceOf_value hf hne] at heq
    exact (Value.parseField_eq_iff (hplain f hf) (writable_field hwritable hf)).mp heq
  · intro h
    obtain ⟨b, hencode, hdecode⟩ := hmsgspec.writes h.writable
    rw [image_asDict] at hdecode
    refine ⟨b, m.instanceOf e.cls (e.arguments fmt), encodeMsg_ok_iff.mpr hencode, ?_, rfl, ?_⟩
    · exact decodeMsg_ok_iff.mpr
        ⟨_, hdecode, reconstruct_received h.serializer hregistered hresolvable⟩
    · intro f hf
      by_cases hne : f.name = "m_serializer"
      · rw [hne, h.serializer]
        simp [Encoder.instanceOf, Value.eq]
      · rw [instanceOf_value hf hne]
        exact (Value.parseField_eq_iff (hplain f hf) (writable_field h.writable hf)).mpr
          (h.fields f hf hne)

/-- The name under which `register_event_serializer` puts a class. -/
def serializerNameOf (cls : EventClass) : Option String → String
  | some name => if name = "" then getSerializerName cls else name
  | none => getSerializerName cls

def registerAll (registrations : List (EventClass × Option String)) (registry : Registry := []) :
    Registry :=
  registrations.foldl (fun registry x => registerEventSerializer x.1 x.2 registry) registry

/-- A class that is registered under its own name, which no other class takes, is found there. -/
theorem lookup_registerAll {cls : EventClass} {registrations : List (EventClass × Option String)}
    (registry : Registry)
    (hown : (cls, none) ∈ registrations ∨ registry.lookup (getSerializerName cls) = some cls)
    (hunique : ∀ x ∈ registrations, serializerNameOf x.1 x.2 = getSerializerName cls → x.1 = cls) :
    (registerAll registrations registry).lookup (getSerializerName cls) = some cls := by
  induction registrations generalizing registry with
  | nil => simpa [registerAll] using hown
  | cons x registrations ih =>
    apply ih
    · rcases hown with hmem | hlookup
      · rcases List.mem_cons.mp hmem with rfl | hmem
        · right
          exact List.lookup_cons_self
        · exact Or.inl hmem
      · right
        have hregister : registerEventSerializer x.1 x.2 registry =
            (serializerNameOf x.1 x.2, x.1) :: registry := rfl
        dsimp only
        rw [hregister, List.lookup_cons]
        by_cases heq : serializerNameOf x.1 x.2 = getSerializerName cls
        · rw [heq, beq_self_eq_true, hunique x List.mem_cons_self heq]
        · rw [beq_false_of_ne (Ne.symm heq)]
          exact hlookup
    · intro y hy
      exact hunique y (List.mem_cons_of_mem x hy)

/-- For every set of registered classes and every event whose class is registered under its own
serializer name, what comes back is an instance of the class equal to the event exactly when the
event is preserved. -/
theorem event_round_trip (registrations : List (EventClass × Option String)) (m : Encoder)
    (fmt : MessageEncodingType) (e : Event) (hregistry : m.registry = registerAll registrations)
    (hown : (registerAll registrations).lookup (getSerializerName e.cls) = some e.cls)
    (hresolvable : e.cls.resolvable) (hplain : e.Plain)
    (hmsgspec : m.msgspec.Documented fmt (.dict e.asDict)) :
    m.RoundTrips fmt e ↔ e.Preserved fmt := by
  have hname : getSerializerName e.cls ≠ "" := by simp [getSerializerName]
  have hregistered : m.classOf (.str (getSerializerName e.cls)) = e.cls := by
    simp [Encoder.classOf, hname, hregistry, hown]
  exact roundTrips_iff hplain hmsgspec hregistered hresolvable

theorem fromUTF8?_toUTF8 (s : String) : String.fromUTF8? s.toUTF8 = some s := by
  unfold String.fromUTF8?
  exact dif_pos s.isValidUTF8

/-- A subclass of `BaseEvent` without fields of its own. -/
def signupEvent : EventClass where
  module := "shop.events"
  name := "SignupEvent"
  lowerName := "signupevent"
  fields := baseFields
  nodup := (baseEvent []).nodup
  base := (baseEvent []).base

/-- 2026-01-02 03:04:05 UTC. -/
def signupTime : Datetime where
  civil := {
    year := 2026
    month := 1
    day := 2
    hour := 3
    minute := 4
    second := 5
    utcoffset := some 0 }
  valid := by decide

def signup (payload : Value) : Event where
  cls := signupEvent
  value name :=
    if name = "event_type" then .str "signup"
    else if name = "event_id" then .str "e1"
    else if name = "timestamp" then .datetime signupTime
    else if name = "retry_count" then .int 0
    else if name = "m_serializer" then .str "signupevent_serializer"
    else if name = "payload" then payload
    else .none

/-- msgspec on one event: the text that it writes and what it reads from that. -/
def jsonCodec (text : String) (v : Value) : Msgspec where
  jsonEncode _ := .ok text.toUTF8
  jsonDecode _ := .ok v
  msgpackEncode _ := .error ""
  msgpackDecode _ := .error ""

/-- The JSON text of a sign-up with this text for its payload. -/
def signupText (payload : String) : String :=
  "\x7b\"event_type\":\"signup\",\"event_id\":\"e1\"," ++
    "\"timestamp\":\"2026-01-02T03:04:05Z\",\"retry_count\":0," ++
    "\"m_serializer\":\"signupevent_serializer\",\"source\":null,\"destination\":null," ++
    "\"user_id\":null,\"payload\":" ++ payload ++ "\x7d"

def signupEncoder (payloadText : String) (payload : Value) : Encoder where
  msgspec := jsonCodec (signupText payloadText)
    ((Value.dict (signup payload).asDict).image .json)
  registry := registerAll [(signupEvent, none)]
  fresh _ := .none

theorem documented_signup {payloadText : String} {payload : Value}
    (hw : (Value.dict (signup payload).asDict).writable .json) :
    (signupEncoder payloadText payload).msgspec.Documented .json
      (.dict (signup payload).asDict) := by
  constructor
  · intro _
    refine ⟨(signupText payloadText).toUTF8, rfl, ?_⟩
    rw [Msgspec.decode, fromUTF8?_toUTF8]
    rfl
  · intro hnot
    exact absurd hw hnot

theorem event_round_trip_signup :
    let payload : Value := .dict [(.str "plan", .str "pro"), (.str "seats", .list [.int 2, .none])]
    (signupEncoder "\x7b\"plan\":\"pro\",\"seats\":[2,null]\x7d" payload).RoundTrips .json
      (signup payload) := by
  intro payload
  have hw : (Value.dict (signup payload).asDict).writable .json := by decide +kernel
  refine (event_round_trip [(signupEvent, none)] _ .json (signup payload) rfl (by rfl) rfl ?_
    (documented_signup hw)).mpr ⟨rfl, hw, ?_⟩
  · unfold Event.Plain
    decide +kernel
  · decide +kernel

theorem not_roundTrips_of_raises {text : String}
    (h : m.msgspec.encode fmt (.dict e.asDict) = .error text) : ¬ m.RoundTrips fmt e := by
  intro hround
  obtain ⟨b, e', hencode, -⟩ := hround
  simp [encodeMsg_ok_iff.mp hencode] at h

/-- The sign-up with a time in its payload. -/
def timedSignup : Event := signup (.dict [(.str "at", .datetime signupTime)])

def timedEncoder : Encoder :=
  signupEncoder "\x7b\"at\":\"2026-01-02T03:04:05Z\"\x7d"
    (.dict [(.str "at", .datetime signupTime)])

/-- The sign-up with a number in its payload that MessagePack does not have. -/
def numberedSignup : Event := signup (.dict [(.str "number", .int (2 ^ 64))])

def numberedEncoder : Encoder where
  msgspec := {
    jsonEncode := fun _ => .error ""
    jsonDecode := fun _ => .error ""
    msgpackEncode := fun _ => .error "Integer value out of range"
    msgpackDecode := fun _ => .error "" }
  registry := registerAll [(signupEvent, none)]
  fresh _ := .none

/-- An encoder that knows sign-ups under an explicit serializer name. -/
def explicitEncoder : Encoder :=
  { signupEncoder "null" .none with
    registry := registerAll [(signupEvent, some "user-registered-event-serializer")] }

theorem timed_plain : timedSignup.Plain := by
  unfold Event.Plain
  decide +kernel

theorem timed_documented : timedEncoder.msgspec.Documented .json (.dict timedSignup.asDict) :=
  documented_signup (by decide +kernel)

theorem timed_changes : ¬ timedEncoder.RoundTrips .json timedSignup := by
  intro hround
  have hpreserved := (roundTrips_iff timed_plain timed_documented rfl rfl).mp hround
  have hpayload : ∀ f ∈ baseFields, f.name = "payload" →
      (timedSignup.value f.name).restored .json f.hint := by
    intro f hf hname
    exact hpreserved.fields f hf (by rw [hname]; decide)
  revert hpayload
  decide +kernel

theorem explicit_changes : ¬ explicitEncoder.RoundTrips .json (signup .none) := by
  intro hround
  obtain ⟨b, e', hencode, hdecode, hcls, -⟩ := hround
  obtain ⟨v, hv, hreconstruct⟩ := decodeMsg_ok_iff.mp hdecode
  obtain rfl : (signupText "null").toUTF8 = b := Except.ok.inj (encodeMsg_ok_iff.mp hencode)
  rw [Msgspec.decode, fromUTF8?_toUTF8] at hv
  obtain rfl : (Value.dict (signup .none).asDict).image .json = v := Option.some.inj hv
  rw [image_asDict] at hreconstruct
  have hnames : NamesClass (.dict ((signup .none).received .json)) ((signup .none).received .json)
      (.str "signupevent_serializer") := ⟨rfl, rfl, by simp⟩
  rw [cls_of_reconstruct hnames hreconstruct] at hcls
  have hname : (baseEvent []).name = signupEvent.name := congrArg EventClass.name hcls
  revert hname
  decide

/-- A time inside a payload comes back as a text from JSON, MessagePack has no integer 2 ^ 64, and
under an explicit serializer name the event comes back as a `BaseEvent`. -/
theorem events_change :
    (¬ ∀ (registrations : List (EventClass × Option String)) (m : Encoder)
      (fmt : MessageEncodingType) (e : Event), m.registry = registerAll registrations →
      e.cls ∈ registrations.map Prod.fst → e.cls.resolvable → e.Plain →
      m.msgspec.Documented fmt (.dict e.asDict) → m.RoundTrips fmt e) ∧
    ¬ timedEncoder.RoundTrips .json timedSignup ∧
    ¬ numberedEncoder.RoundTrips .msgpack numberedSignup ∧
    ¬ explicitEncoder.RoundTrips .json (signup .none) := by
  refine ⟨?_, timed_changes, not_roundTrips_of_raises rfl, explicit_changes⟩
  intro hclaim
  apply timed_changes
  apply hclaim [(signupEvent, none)]
  · rfl
  · exact List.mem_singleton.mpr rfl
  · rfl
  · exact timed_plain
  · exact timed_documented

end Taas.MsgEncoder
