import Mathlib.Data.Rat.Defs
import Mathlib.Logic.Function.Basic
import Taas.AvroData
import Taas.Datetime
import Taas.Fallible

/-!
`encode_event` of the encoder that keeps a schema for each topic and each event type, up to
`serialize`. Its guard looks at the keys of the event only, and the writer goes on below them.
-/
namespace Taas.SchemaRegistryEncoder

open AvroData Python Fallible

/-- The scalars of Python data. The members of a `StrEnum` and of an `IntEnum` are a string and an
integer, a `time` has its microseconds since midnight, and `object` is an object of another class,
or a dict with keys that are no strings. -/
inductive Scalar (O : Type)
  | none
  | bool (b : Bool)
  | int (n : ℤ)
  | float (x : ℚ)
  | notFinite
  | str (s : String)
  | bytes (b : ByteArray)
  | datetime (t : Datetime)
  | date (d : Date)
  | time (microseconds : ℕ) (utcoffset : Option ℤ)
  | object (isDict : Bool) (o : O)

/-- The texts that `get` finds in a leaf of a schema that is a dict. -/
class Attributes (L : Type) where
  get : L → String → Option String

variable {L O : Type} [Attributes L]

/-- The schemas of the topics, and those of the event types of a topic. -/
structure Encoder (L O : Type) where
  avroSchemas : String → Option (Schema L (Scalar O)) := fun _ => none
  schemasByEvent : String × String → Option (Schema L (Scalar O)) := fun _ => none

/-- The schema of a topic stays the one that was registered first. -/
def Encoder.registerTopicSchema (e : Encoder L O) (topic : String) (schema : Schema L (Scalar O))
    (eventType : Option String := none) : Encoder L O where
  avroSchemas := Function.update e.avroSchemas topic (e.avroSchemas topic <|> some schema)
  schemasByEvent :=
    match eventType with
    | some t =>
      if t = "" then e.schemasByEvent
      else Function.update e.schemasByEvent (topic, t) (some schema)
    | none => e.schemasByEvent

/-- `noSchema` is the ValueError of `_get_schema`; the other two are raised by Python. -/
inductive EncodeError (O : Type)
  | avroFieldLoss (topic : String) (eventType : Datum (Scalar O)) (name : Option String)
      (dropped : List String)
  | noSchema (topic : String)
  | typeError
  | attributeError

/-- `_get_schema`, where the dict of the event types hashes the event type. -/
def Encoder.getSchema (e : Encoder L O) (hashable : Datum (Scalar O) → Bool) (topic : String)
    (eventType : Datum (Scalar O)) : Except (EncodeError O) (Schema L (Scalar O)) :=
  let ofTopic : Except (EncodeError O) (Schema L (Scalar O)) :=
    match e.avroSchemas topic with
    | some schema => .ok schema
    | none => .error (.noSchema topic)
  match eventType with
  | .scalar .none => ofTopic
  | .scalar (.str t) =>
    match e.schemasByEvent (topic, t) with
    | some exact => .ok exact
    | none => ofTopic
  | _ => if hashable eventType then ofTopic else .error .typeError

/-- `schema.get('fields', [])`; only dicts have a `get`. -/
def fieldsOf : Schema L (Scalar O) →
    Option (List (String × Schema L (Scalar O) × Datum (Scalar O)))
  | .record _ fields => some fields
  | .reference _ | .union _ => none
  | .leaf _ | .array _ | .map _ => some []

def nameOf : Schema L (Scalar O) → Option String
  | .record name _ => some name
  | .leaf l => Attributes.get l "name"
  | _ => none

def assertNoFieldLoss (data : List (String × Datum (Scalar O))) (schema : Schema L (Scalar O))
    (topic : String) (eventType : Datum (Scalar O)) : Except (EncodeError O) Unit :=
  match fieldsOf schema with
  | none => .error .attributeError
  | some fields =>
    let dropped := (data.map Prod.fst).filter fun k => k ∉ fields.map Prod.fst
    if dropped = [] then .ok ()
    else .error (.avroFieldLoss topic eventType (nameOf schema) dropped.mergeSort)

def expandZ (c : Char) : List Char := if c = 'Z' then ['+', '0', '0', ':', '0', '0'] else [c]

/-- `value.replace('Z', '+00:00')`. -/
def replaceZ (s : String) : String := String.ofList (s.toList.flatMap expandZ)

/-- `_parse_iso_datetime`; none is a ValueError. -/
def parseIsoDatetime (s : String) : Option Datetime := fromisoformat (replaceZ s)

/-- A value whose field has this type, none for a key that is no field. -/
def prepareValue : Option (Schema L (Scalar O)) → Datum (Scalar O) → Datum (Scalar O)
  | some (.leaf l), .scalar (.str s) =>
    if Attributes.get l "logicalType" ∈ [some "timestamp-millis", some "timestamp-micros"] then
      match parseIsoDatetime s with
      | some t => .scalar (.datetime t)
      | none => .scalar (.str s)
    else .scalar (.str s)
  | _, v => v

def prepareForAvro (data : List (String × Datum (Scalar O))) (schema : Schema L (Scalar O)) :
    List (String × Datum (Scalar O)) :=
  data.map fun x => (x.1, prepareValue (((fieldsOf schema).getD []).lookup x.1 |>.map Prod.fst) x.2)

/-- `data.get('event_type')`. -/
def eventTypeOf (data : List (String × Datum (Scalar O))) : Datum (Scalar O) :=
  (data.lookup "event_type").getD (.scalar .none)

/-- `encode_event`: the schema and the dict that `serialize` is called with. -/
def Encoder.encodeEvent (e : Encoder L O) (hashable : Datum (Scalar O) → Bool) (topic : String)
    (data : List (String × Datum (Scalar O))) :
    Except (EncodeError O) (Schema L (Scalar O) × List (String × Datum (Scalar O))) := do
  let eventType := eventTypeOf data
  let schema ← e.getSchema hashable topic eventType
  assertNoFieldLoss data schema topic eventType
  return (schema, prepareForAvro data schema)

/-- `encode_event` succeeds, and `d'` is what its bytes are decoded to. -/
def Encodes (F : Fastavro L (Scalar O)) (e : Encoder L O) (hashable : Datum (Scalar O) → Bool)
    (topic : String) (data : List (String × Datum (Scalar O))) (d' : Datum (Scalar O)) : Prop :=
  ∃ schema prepared, e.encodeEvent hashable topic data = .ok (schema, prepared) ∧
    F.parses schema ∧ Written F schema schema (.dict prepared) d'

/-- The event is one for the schema: it is the schema of its topic and event type, it has a field
for each key of the event, and the event can be written under it. -/
structure Encodable (F : Fastavro L (Scalar O)) (e : Encoder L O)
    (hashable : Datum (Scalar O) → Bool) (topic : String)
    (data : List (String × Datum (Scalar O))) (schema : Schema L (Scalar O)) : Prop where
  found : e.getSchema hashable topic (eventTypeOf data) = .ok schema
  keys : ∃ fields, fieldsOf schema = some fields ∧
    ∀ k ∈ data.map Prod.fst, k ∈ fields.map Prod.fst
  parses : F.parses schema
  writable : ∃ d', Written F schema schema (.dict (prepareForAvro data schema)) d'

variable {F : Fastavro L (Scalar O)} {e : Encoder L O} {hashable : Datum (Scalar O) → Bool}
  {topic : String} {data : List (String × Datum (Scalar O))} {schema : Schema L (Scalar O)}
  {d v : Datum (Scalar O)}

theorem assertNoFieldLoss_iff (topic : String) (eventType : Datum (Scalar O)) :
    assertNoFieldLoss data schema topic eventType = .ok () ↔
      ∃ fields, fieldsOf schema = some fields ∧
        ∀ k ∈ data.map Prod.fst, k ∈ fields.map Prod.fst := by
  unfold assertNoFieldLoss
  cases fieldsOf schema with
  | none => simp
  | some fields =>
    by_cases h : ((data.map Prod.fst).filter fun k => k ∉ fields.map Prod.fst) = []
    · have hall := List.filter_eq_nil_iff.mp h
      simp only [h, if_true, true_iff]
      refine ⟨fields, rfl, ?_⟩
      intro k hk
      simpa using hall k hk
    · simp only [if_neg h, reduceCtorEq, false_iff]
      rintro ⟨fields', hfields, hkeys⟩
      obtain rfl := Option.some.inj hfields
      apply h
      rw [List.filter_eq_nil_iff]
      intro k hk
      simpa using hkeys k hk

theorem encodeEvent_eq_ok {prepared : List (String × Datum (Scalar O))} :
    e.encodeEvent hashable topic data = .ok (schema, prepared) ↔
      e.getSchema hashable topic (eventTypeOf data) = .ok schema ∧
      (∃ fields, fieldsOf schema = some fields ∧
        ∀ k ∈ data.map Prod.fst, k ∈ fields.map Prod.fst) ∧
      prepared = prepareForAvro data schema := by
  rw [← assertNoFieldLoss_iff topic (eventTypeOf data)]
  constructor
  · intro h
    obtain ⟨schema', hschema, h⟩ := bind_ok h
    obtain ⟨u, hguard, h⟩ := bind_ok h
    cases h
    exact ⟨hschema, hguard, rfl⟩
  · rintro ⟨hschema, hguard, rfl⟩
    simp [Encoder.encodeEvent, hschema, hguard, bind, Except.bind, pure, Except.pure]

theorem encodes_iff : Encodes F e hashable topic data d ↔
    ∃ schema, Encodable F e hashable topic data schema ∧
      Written F schema schema (.dict (prepareForAvro data schema)) d := by
  constructor
  · rintro ⟨schema, prepared, hok, hparses, hwritten⟩
    obtain ⟨hfound, hkeys, rfl⟩ := encodeEvent_eq_ok.mp hok
    exact ⟨schema, ⟨hfound, hkeys, hparses, d, hwritten⟩, hwritten⟩
  · rintro ⟨schema, hencodable, hwritten⟩
    have hok := encodeEvent_eq_ok.mpr ⟨hencodable.found, hencodable.keys, rfl⟩
    exact ⟨schema, _, hok, hencodable.parses, hwritten⟩

theorem prepareValue_self {t : Schema L (Scalar O)} (h : ∀ l, t = .leaf l →
    Attributes.get l "logicalType" ∉ [some "timestamp-millis", some "timestamp-micros"]) :
    prepareValue (some t) v = v := by
  unfold prepareValue
  split
  · rename_i l s hleaf
    rw [if_neg (h l (Option.some.inj hleaf))]
  · rfl

/-- A value is prepared to itself, or a scalar under a leaf to a scalar. -/
theorem prepareValue_cases (t : Option (Schema L (Scalar O))) (v : Datum (Scalar O)) :
    prepareValue t v = v ∨
      ∃ l a b, t = some (.leaf l) ∧ v = .scalar a ∧ prepareValue t v = .scalar b := by
  unfold prepareValue
  split
  · rename_i l s
    split
    · split
      · exact Or.inr ⟨l, _, _, rfl, rfl, rfl⟩
      · exact Or.inl rfl
    · exact Or.inl rfl
  · exact Or.inl rfl

theorem lookup_prepareForAvro (k : String) : (prepareForAvro data schema).lookup k =
    (data.lookup k).map fun v =>
      prepareValue ((((fieldsOf schema).getD []).lookup k).map Prod.fst) v :=
  lookup_map data fun k v => prepareValue ((((fieldsOf schema).getD []).lookup k).map Prod.fst) v

theorem keysKept_prepared (t : Option (Schema L (Scalar O))) :
    KeysKept (prepareValue t v) d ↔ KeysKept v d := by
  rcases prepareValue_cases t v with h | ⟨l, a, b, -, rfl, h⟩
  · rw [h]
  · rw [h]
    exact iff_of_true (keysKept_of_keyless (keyless_scalar b))
      (keysKept_of_keyless (keyless_scalar a))

theorem carries_prepared {root t : Schema L (Scalar O)} :
    Carries F root t (prepareValue (some t) v) ↔ Carries F root t v := by
  rcases prepareValue_cases (some t) v with h | ⟨l, a, b, ht, rfl, h⟩
  · rw [h]
  · obtain rfl := Option.some.inj ht
    rw [h, carries_flat rfl, carries_flat rfl]
    exact iff_of_true (keyless_scalar b) (keyless_scalar a)

theorem keysKept_prepareForAvro (schema : Schema L (Scalar O)) :
    KeysKept (.dict (prepareForAvro data schema)) d ↔ KeysKept (.dict data) d := by
  rw [keysKept_dict, keysKept_dict]
  simp only [lookup_prepareForAvro]
  refine forall_congr' fun k => ?_
  cases data.lookup k with
  | none => simp
  | some v => simp [keysKept_prepared]

theorem carries_prepareForAvro {fields : List (String × Schema L (Scalar O) × Datum (Scalar O))}
    (hfields : fieldsOf schema = some fields) {root : Schema L (Scalar O)} :
    Carries F root schema (.dict (prepareForAvro data schema)) ↔
      Carries F root schema (.dict data) := by
  have hplain : fieldsOf schema = some [] → prepareForAvro data schema = data := by
    intro hnone
    simp [prepareForAvro, hnone, prepareValue]
  cases schema with
  | record name fs =>
    rw [carries_record, carries_record]
    simp only [lookup_prepareForAvro]
    refine forall_congr' fun k => ?_
    cases data.lookup k with
    | none => simp
    | some v =>
      cases hfield : fs.lookup k with
      | none => simp [fieldsOf, hfield]
      | some field =>
        obtain ⟨t, default⟩ := field
        simp [fieldsOf, hfield, carries_prepared]
  | leaf l => rw [hplain rfl]
  | array items => rw [hplain rfl]
  | map values => rw [hplain rfl]
  | reference n => cases hfields
  | union branches => cases hfields

/-- `encode_event` raises or keeps every key, exactly when its schema carries each event that it
can write. -/
theorem no_field_loss_iff (F : Fastavro L (Scalar O)) (e : Encoder L O)
    (hashable : Datum (Scalar O) → Bool) (topic : String)
    (data : List (String × Datum (Scalar O))) :
    (∀ d, Encodes F e hashable topic data d → KeysKept (.dict data) d) ↔
      ∀ schema, Encodable F e hashable topic data schema →
        Carries F schema schema (.dict data) := by
  constructor
  · intro h schema hencodable
    obtain ⟨d, hwritten⟩ := hencodable.writable
    obtain ⟨fields, hfields, -⟩ := hencodable.keys
    have hkept := h d (encodes_iff.mpr ⟨schema, hencodable, hwritten⟩)
    rw [← carries_prepareForAvro hfields, ← keysKept_iff_carries hwritten, keysKept_prepareForAvro]
    exact hkept
  · intro h d hencodes
    obtain ⟨schema, hencodable, hwritten⟩ := encodes_iff.mp hencodes
    obtain ⟨fields, hfields, -⟩ := hencodable.keys
    rw [← keysKept_prepareForAvro schema, keysKept_iff_carries hwritten,
      carries_prepareForAvro hfields]
    exact h schema hencodable

/-- A primitive type by its name, a logical type, and an Enum. -/
inductive Leaf
  | primitive (name : String)
  | logical (type logicalType : String)
  | enum (name : String) (symbols : List String)

instance : Attributes Leaf where
  get
    | .primitive _, _ => none
    | .logical type logicalType, key =>
      if key = "type" then some type
      else if key = "logicalType" then some logicalType
      else none
    | .enum name _, key =>
      if key = "type" then some "enum" else if key = "name" then some name else none

/-- A writer of records of strings. -/
def stringWriter : Fastavro Leaf (Scalar Empty) where
  parses _ := True
  resolve _ _ := none
  choose _ branches _ := branches.head?
  write
    | .leaf (.primitive "string"), .scalar (.str s) => some (.scalar (.str s))
    | _, _ => none
  write_keyless := by
    intro s d d' h
    split at h
    · cases h
      exact keyless_scalar _
    · cases h

def stringField (name : String) : String × Schema Leaf (Scalar Empty) × Datum (Scalar Empty) :=
  (name, .leaf (.primitive "string"), .scalar .none)

/-- Users with an address that has a city only. -/
def userSchema : Schema Leaf (Scalar Empty) :=
  .record "UserCreated" [stringField "event_type",
    ("address", .record "Address" [stringField "city"], .scalar .none)]

def text (s : String) : Datum (Scalar Empty) := .scalar (.str s)

def userCreated (address : List (String × Datum (Scalar Empty))) :
    List (String × Datum (Scalar Empty)) :=
  [("event_type", text "user.created"), ("address", .dict address)]

def userEncoder : Encoder Leaf Empty :=
  ({} : Encoder Leaf Empty).registerTopicSchema "iam.users" userSchema (some "user.created")

theorem written_string {root : Schema Leaf (Scalar Empty)} (s : String) :
    Written stringWriter root (.leaf (.primitive "string")) (text s) (text s) :=
  Written.flat rfl rfl

theorem address_written {root : Schema Leaf (Scalar Empty)} {city : String}
    {address : List (String × Datum (Scalar Empty))}
    (h : address.lookup "city" = some (text city)) :
    Written stringWriter root (.record "Address" [stringField "city"]) (.dict address)
      (.dict [("city", text city)]) := by
  refine Written.record rfl ?_
  intro k t default v' hfield hread
  by_cases hk : k = "city"
  · subst hk
    cases hfield
    cases hread
    rw [h]
    exact written_string city
  · have hbeq : (k == "city") = false := beq_eq_false_iff_ne.mpr hk
    simp [List.lookup_cons, hbeq] at hread

theorem userCreated_encodes (address : List (String × Datum (Scalar Empty))) {city : String}
    (h : address.lookup "city" = some (text city)) :
    Encodes stringWriter userEncoder (fun _ => true) "iam.users" (userCreated address)
      (.dict (userCreated [("city", text city)])) := by
  have hwritten : Written stringWriter userSchema userSchema (.dict (userCreated address))
      (.dict (userCreated [("city", text city)])) := by
    refine Written.record rfl ?_
    intro k t default v' hfield hread
    by_cases hk : k = "event_type"
    · subst hk
      cases hfield
      cases hread
      exact written_string _
    · have hbeq : (k == "event_type") = false := beq_eq_false_iff_ne.mpr hk
      by_cases hk' : k = "address"
      · subst hk'
        cases hfield
        cases hread
        exact address_written h
      · have hbeq' : (k == "address") = false := beq_eq_false_iff_ne.mpr hk'
        simp [userCreated, List.lookup_cons, hbeq, hbeq'] at hread
  refine ⟨userSchema, userCreated address, ?_, trivial, hwritten⟩
  exact encodeEvent_eq_ok.mpr ⟨rfl, ⟨_, rfl, by simp [userCreated, stringField]⟩, rfl⟩

/-- The zip code of the address is lost. -/
theorem nested_field_lost :
    (¬ ∀ (F : Fastavro Leaf (Scalar Empty)) (e : Encoder Leaf Empty) hashable topic data d,
      Encodes F e hashable topic data d → KeysKept (.dict data) d) ∧
    ∃ d, Encodes stringWriter userEncoder (fun _ => true) "iam.users"
        (userCreated [("city", text "Oslo"), ("zip", text "0150")]) d ∧
      ¬ d.HasKey [.key "address"] "zip" := by
  have h := @userCreated_encodes [("city", text "Oslo"), ("zip", text "0150")] "Oslo" rfl
  have hlost : ¬ (Datum.dict (userCreated [("city", text "Oslo")])).HasKey
      [.key "address"] "zip" := by
    simp [Datum.HasKey, Datum.descend, Datum.child, userCreated, List.lookup_cons]
  refine ⟨fun hall => hlost (hall _ _ _ _ _ _ h [.key "address"] "zip" ?_), _, h, hlost⟩
  simp [Datum.HasKey, Datum.descend, Datum.child, userCreated, List.lookup_cons]

end Taas.SchemaRegistryEncoder
