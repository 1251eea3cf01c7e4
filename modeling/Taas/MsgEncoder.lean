import Taas.Datetime

/-!
`MsgEncoder` with the JSON and MessagePack encodings: the registry of event classes, and what
encoding and decoding do with an event. msgspec is a parameter. `lower` follows Unicode, so a
class carries its lower-case name, and every event class has the `__post_init__` of `BaseEvent`.
-/
namespace Taas.MsgEncoder

open Python

/-- The Python values that msgspec decodes without a type. A list is a tuple where it is a key. -/
inductive Value
  | none
  | bool (b : Bool)
  | int (n : ℤ)
  | float (x : Float)
  | str (s : String)
  | bytes (b : ByteArray)
  | datetime (t : Datetime)
  | list (vs : List Value)
  | dict (entries : List (Value × Value))
  | ext (code : ℤ) (data : ByteArray)

namespace Value

def typeName : Value → String
  | none => "NoneType"
  | bool _ => "bool"
  | int _ => "int"
  | float _ => "float"
  | str _ => "str"
  | bytes _ => "bytes"
  | datetime _ => "datetime.datetime"
  | list _ => "list"
  | dict _ => "dict"
  | ext _ _ => "msgspec.msgpack.Ext"

/-- `bool(v)`. -/
def truthy : Value → Bool
  | none => false
  | bool b => b
  | int n => n ≠ 0
  | float x => !(x == 0)
  | str s => s ≠ ""
  | bytes b => b.size ≠ 0
  | list vs => !vs.isEmpty
  | dict entries => !entries.isEmpty
  | datetime _ | ext _ _ => true

def hashable : Value → Bool
  | list _ | dict _ | ext _ _ => false
  | _ => true

/-- `x == n`, which Python compares exactly: a float has 53 binary digits. -/
def floatIs (x : Float) (n : ℤ) : Bool :=
  x == Float.ofInt n ∧ n.natAbs < 2 ^ 1024 ∧ 2 ^ (n.natAbs.log2 - 52) ∣ n.natAbs

mutual

/-- `a == b` of keys, which hold neither a dict nor an Ext. -/
def sameKey : Value → Value → Bool
  | none, none => true
  | bool a, bool b => a = b
  | int a, int b => a = b
  | float a, float b => a == b
  | bool a, int n | int n, bool a => n = a.toNat
  | bool a, float x | float x, bool a => floatIs x a.toNat
  | int n, float x | float x, int n => floatIs x n
  | str a, str b => a = b
  | bytes a, bytes b => a.data = b.data
  | datetime a, datetime b => a.eq b
  | list as, list bs => sameKeys as bs
  | _, _ => false

def sameKeys : List Value → List Value → Bool
  | [], [] => true
  | a :: as, b :: bs => sameKey a b && sameKeys as bs
  | _, _ => false

end

/-- Keys other than tuples that `<` compares: texts, numbers, byte strings, naive times, aware
times. -/
def orderClass : Value → Option ℕ
  | str _ => some 0
  | bool _ | int _ | float _ => some 1
  | bytes _ => some 2
  | datetime t => some (if t.civil.utcoffset = Option.none then 3 else 4)
  | none | list _ | dict _ | ext _ _ => Option.none

mutual

/-- `a < b` of keys does not raise. -/
def comparable : Value → Value → Bool
  | list as, list bs => comparableTuples as bs
  | a, b => a.orderClass.isSome ∧ a.orderClass = b.orderClass

/-- Tuples are compared by the first elements that differ. -/
def comparableTuples : List Value → List Value → Bool
  | a :: as, b :: bs => if sameKey a b then comparableTuples as bs else comparable a b
  | _, _ => true

end

end Value

/-- `sorted(vs)` of keys does not raise: with whatever comparisons, it cannot put in order two keys
that `<` refuses (a NaN in a tuple apart, with which `<` is no order). -/
def sortable (vs : List Value) : Bool := vs.Pairwise fun a b => a.comparable b

def get (entries : List (Value × Value)) (field : String) : Option Value :=
  entries.findSome? fun x =>
    match x.1 with
    | .str s => if s = field then some x.2 else none
    | _ => none

inductive ErrorType
  | msgDecoderError
  | jsonDecodeError
  | unicodeDecodeError
  | msgspec
  | typeError
  | attributeError
  deriving DecidableEq, Repr

structure PyError where
  type : ErrorType
  text : String
  errorCode : Option String := none
  deriving DecidableEq

def msgDecoderError (message errorCode : String) : PyError where
  type := .msgDecoderError
  text := "💥 " ++ message
  errorCode := some errorCode

/-- A type annotation, as far as `_is_datetime_type` looks into it. -/
inductive TypeHint
  | datetime
  | other (name : String)
  | generic (args : List TypeHint)

def isDatetimeType : TypeHint → Bool
  | .datetime => true
  | .other _ => false
  | .generic args => args.any fun arg => arg matches .datetime

inductive Default
  | required
  | value (v : Value)
  | factory

structure Field where
  name : String
  hint : TypeHint
  default : Default := .required

def optional (name : String) : TypeHint := .generic [.other name, .other "NoneType"]

def baseFields : List Field := [
  { name := "event_type", hint := .other "str" },
  { name := "event_id", hint := .other "str", default := .factory },
  { name := "timestamp", hint := .datetime, default := .factory },
  { name := "retry_count", hint := .other "int", default := .value (.int 0) },
  { name := "m_serializer", hint := .other "str", default := .value (.str "") },
  { name := "source", hint := optional "str", default := .value .none },
  { name := "destination", hint := optional "str", default := .value .none },
  { name := "user_id", hint := optional "str", default := .value .none },
  { name := "payload"
    hint := .generic [.other "bytes", .other "str", .other "dict", .other "NoneType"]
    default := .value .none }]

/-- A subclass of `BaseEvent`. `annotations` are the annotated names that are not fields: class
variables, and those of a base that is not a Struct. -/
structure EventClass where
  module : String
  name : String
  lowerName : String
  fields : List Field
  annotations : List (String × TypeHint) := []
  /-- `get_type_hints` resolves the annotations. -/
  resolvable : Bool := true
  nodup : (fields.map Field.name).Nodup
  base : ∀ f ∈ baseFields, f.name ∈ fields.map Field.name

def baseEvent (annotations : List (String × TypeHint)) : EventClass where
  module := "foundation.messaging.types"
  name := "BaseEvent"
  lowerName := "baseevent"
  fields := baseFields
  annotations := annotations
  nodup := by decide
  base _ hf := List.mem_map_of_mem hf

structure Event where
  cls : EventClass
  /-- The values of its fields. -/
  value : String → Value

def Event.asDict (e : Event) : List (Value × Value) :=
  e.cls.fields.map fun f => (.str f.name, e.value f.name)

/-- What decoding returns: an event, or what was decoded as it is. -/
inductive Message
  | plain (v : Value)
  | event (e : Event)

/-- msgspec without types. The texts are those of its exceptions. -/
structure Msgspec where
  jsonEncode : Value → Except String ByteArray
  jsonDecode : String → Except String Value
  msgpackEncode : Value → Except String ByteArray
  msgpackDecode : ByteArray → Except String Value

inductive MessageEncodingType
  | json
  | msgpack
  deriving DecidableEq, Repr

/-- `_event_type_registry`: the entry of a name that was registered last comes first. -/
abbrev Registry := List (String × EventClass)

def getSerializerName (cls : EventClass) : String := cls.lowerName ++ "_serializer"

/-- `register_event_serializer`; an empty name counts as missing. -/
def registerEventSerializer (cls : EventClass) (serializer : Option String)
    (registry : Registry) : Registry :=
  (match serializer with
    | some name => if name = "" then getSerializerName cls else name
    | none => getSerializerName cls, cls) :: registry

/-- The encoder of a service. `fresh` gives the values of the default factories. -/
structure Encoder where
  msgspec : Msgspec
  registry : Registry := []
  baseAnnotations : List (String × TypeHint) := []
  fresh : String → Value

/-- The class of a serializer name that is not None. -/
def Encoder.eventClass (m : Encoder) (serializer : Value) : Except PyError EventClass :=
  if serializer.truthy then
    if serializer.hashable then
      match serializer with
      | .str name => .ok ((m.registry.lookup name).getD (baseEvent m.baseAnnotations))
      | _ => .ok (baseEvent m.baseAnnotations)
    else .error {
      type := .typeError
      text := "unhashable type: '" ++ serializer.typeName ++ "'" }
  else .ok (baseEvent m.baseAnnotations)

def EventClass.hints (cls : EventClass) : List (String × TypeHint) :=
  (cls.fields.map fun f => (f.name, f.hint)) ++ cls.annotations

def getFieldTypes (cls : EventClass) : Except PyError (List (String × TypeHint)) :=
  if cls.resolvable then .ok cls.hints
  else .error {
    type := .typeError
    text := "must be called with a dataclass type or instance" }

/-- A text in a field whose annotation names `datetime` is parsed, or left when that fails. -/
def parseField (hint : TypeHint) (v : Value) : Value :=
  match v with
  | .str s => if isDatetimeType hint then (fromisoformat s).elim v .datetime else v
  | v => v

def unknownKeys (hints : List (String × TypeHint)) (entries : List (Value × Value)) : List Value :=
  (entries.map Prod.fst).filter fun k =>
    match k with
    | .str name => (hints.lookup name).isNone
    | _ => true

def filtered (hints : List (String × TypeHint)) (entries : List (Value × Value)) :
    List (String × Value) :=
  entries.filterMap fun x =>
    match x.1 with
    | .str name => (hints.lookup name).map fun hint => (name, parseField hint x.2)
    | _ => none

/-- The value of a field of a new instance. -/
def Encoder.fieldValue (m : Encoder) (kwargs : List (String × Value)) (f : Field) : Option Value :=
  match kwargs.lookup f.name with
  | some v => some v
  | none =>
    match f.default with
    | .required => none
    | .value v => some v
    | .factory => some (m.fresh f.name)

/-- A new instance, with the serializer name that `__post_init__` sets. -/
def Encoder.instanceOf (m : Encoder) (cls : EventClass) (kwargs : List (String × Value)) :
    Event where
  cls := cls
  value name :=
    if name = "m_serializer" then .str (getSerializerName cls)
    else ((cls.fields.find? fun f => f.name = name).bind (m.fieldValue kwargs)).getD .none

/-- `event_cls(**kwargs)`. -/
def Encoder.construct (m : Encoder) (cls : EventClass) (kwargs : List (String × Value)) :
    Except PyError Event :=
  match kwargs.find? fun x => x.1 ∉ cls.fields.map Field.name with
  | some x => .error {
      type := .typeError
      text := "Unexpected keyword argument '" ++ x.1 ++ "'" }
  | none =>
    match cls.fields.find? fun f => (m.fieldValue kwargs f).isNone with
    | some f => .error {
        type := .typeError
        text := "Missing required argument '" ++ f.name ++ "'" }
    | none => .ok (m.instanceOf cls kwargs)

/-- `reconstruct_event`, from the serializer name on. -/
def Encoder.reconstructAs (m : Encoder) (entries : List (Value × Value)) (serializer : Value) :
    Except PyError Message := do
  let cls ← m.eventClass serializer
  let fieldTypes ← getFieldTypes cls
  -- the log line sorts the unknown keys; the text goes on with the types of the two keys
  if ¬ sortable (unknownKeys fieldTypes entries) then
    .error {
      type := .typeError
      text := "'<' not supported between instances" }
  else
    let e ← m.construct cls (filtered fieldTypes entries)
    .ok (.event e)

def Encoder.reconstructEvent (m : Encoder) (eventData : Value) : Except PyError Message :=
  match eventData with
  | .dict entries =>
    match get entries "m_serializer" with
    | none | some .none => .ok (.plain eventData)
    | some serializer => m.reconstructAs entries serializer
  | _ => .ok (.plain eventData)

/-- `encode_msg` of an event. -/
def Encoder.encodeMsg (m : Encoder) (fmt : MessageEncodingType) (e : Event) :
    Except PyError ByteArray :=
  let encode := match fmt with
    | .json => m.msgspec.jsonEncode
    | .msgpack => m.msgspec.msgpackEncode
  (encode (.dict e.asDict)).mapError fun text => { type := .msgspec, text := text }

def Encoder.decodeMsgpack (m : Encoder) (val : ByteArray) : Except PyError Message := do
  let allData ← (m.msgspec.msgpackDecode val).mapError fun text =>
    { type := .msgspec, text := text }
  m.reconstructEvent allData

def Encoder.decodeJson (m : Encoder) (val : ByteArray) : Except PyError Message :=
  match String.fromUTF8? val with
  | none => .error {
      type := .unicodeDecodeError
      text := "'utf-8' codec can't decode bytes" }
  | some text => do
    let allData ← (m.msgspec.jsonDecode text).mapError fun text =>
      { type := .msgspec, text := text }
    m.reconstructEvent allData

/-- `decode_msg` of bytes. The MessagePack branch catches every exception, the JSON branch
`json.JSONDecodeError`. -/
def Encoder.decodeMsg (m : Encoder) (fmt : MessageEncodingType) (val : ByteArray) :
    Except PyError Message :=
  match fmt with
  | .msgpack => (m.decodeMsgpack val).mapError fun e =>
      msgDecoderError ("Failed to decode msgpack data: " ++ e.text) "MSGPACK_DECODE_ERROR"
  | .json => (m.decodeJson val).mapError fun e =>
      if e.type = .jsonDecodeError then
        msgDecoderError ("Failed to decode JSON data: " ++ e.text) "JSON_DECODE_ERROR"
      else e

/-- The object under which a message names its event class. -/
def NamesClass (v : Value) (entries : List (Value × Value)) (serializer : Value) : Prop :=
  v = .dict entries ∧ get entries "m_serializer" = some serializer ∧ serializer ≠ .none

/-- The class that a serializer name stands for: `BaseEvent` when it is empty or not registered. -/
def Encoder.classOf (m : Encoder) (serializer : Value) : EventClass :=
  match serializer with
  | .str name =>
    if name = "" then baseEvent m.baseAnnotations
    else (m.registry.lookup name).getD (baseEvent m.baseAnnotations)
  | _ => baseEvent m.baseAnnotations

/-- A constructor call with these arguments succeeds: no other argument, none missing. -/
def Accepts (cls : EventClass) (kwargs : List (String × Value)) : Prop :=
  (∀ x ∈ kwargs, x.1 ∈ cls.fields.map Field.name) ∧
    ∀ f ∈ cls.fields, f.default matches .required → f.name ∈ kwargs.map Prod.fst

/-- An object describes an event: it names a class, whose annotations resolve and whose
constructor accepts the entries under annotated names. -/
structure Encoder.Describes (m : Encoder) (entries : List (Value × Value)) (serializer : Value) :
    Prop where
  hashable : serializer.truthy → serializer.hashable
  resolvable : (m.classOf serializer).resolvable
  sortable : sortable (unknownKeys (m.classOf serializer).hints entries)
  accepts : Accepts (m.classOf serializer) (filtered (m.classOf serializer).hints entries)

def Encoder.eventOf (m : Encoder) (entries : List (Value × Value)) (serializer : Value) : Event :=
  m.instanceOf (m.classOf serializer) (filtered (m.classOf serializer).hints entries)

variable {m : Encoder} {cls : EventClass} {kwargs : List (String × Value)} {v : Value}
variable {entries : List (Value × Value)} {serializer : Value}

theorem lookup_eq_none_iff {α : Type} {l : List (String × α)} {name : String} :
    l.lookup name = none ↔ name ∉ l.map Prod.fst := by
  rw [List.lookup_eq_none_iff]
  simp only [List.mem_map, not_exists, not_and, bne_iff_ne]
  constructor
  · intro h x hx hname
    exact h x hx hname.symm
  · intro h x hx hname
    exact h x hx hname.symm

theorem fieldValue_isNone_iff (f : Field) : (m.fieldValue kwargs f).isNone ↔
    f.default matches .required ∧ f.name ∉ kwargs.map Prod.fst := by
  rw [← lookup_eq_none_iff]
  unfold Encoder.fieldValue
  cases kwargs.lookup f.name with
  | some w => simp
  | none => cases f.default <;> simp

theorem construct_spec (m : Encoder) (cls : EventClass) (kwargs : List (String × Value)) :
    (Accepts cls kwargs → m.construct cls kwargs = .ok (m.instanceOf cls kwargs)) ∧
    (¬ Accepts cls kwargs → ∃ text,
      m.construct cls kwargs = .error { type := .typeError, text := text }) := by
  unfold Encoder.construct Accepts
  cases hextra : kwargs.find? fun x => x.1 ∉ cls.fields.map Field.name with
  | some x =>
    have hx := List.find?_some hextra
    have hmem := List.mem_of_find?_eq_some hextra
    constructor
    · intro h
      exact absurd (h.1 x hmem) (by simpa using hx)
    · intro _
      exact ⟨_, rfl⟩
  | none =>
    have hfields : ∀ x ∈ kwargs, x.1 ∈ cls.fields.map Field.name := by
      simpa using List.find?_eq_none.mp hextra
    cases hmissing : cls.fields.find? fun f => (m.fieldValue kwargs f).isNone with
    | some f =>
      have hnone := List.find?_some (p := fun f => (m.fieldValue kwargs f).isNone) hmissing
      obtain ⟨hreq, hnot⟩ := (fieldValue_isNone_iff f).mp hnone
      have hmem := List.mem_of_find?_eq_some hmissing
      constructor
      · intro h
        exact absurd (h.2 f hmem hreq) hnot
      · intro _
        exact ⟨_, rfl⟩
    | none =>
      constructor
      · intro _
        rfl
      · intro hnot
        refine absurd ⟨hfields, fun f hf hreq => ?_⟩ hnot
        by_contra hname
        exact List.find?_eq_none.mp hmissing f hf ((fieldValue_isNone_iff f).mpr ⟨hreq, hname⟩)

theorem namesClass_unique {entries' : List (Value × Value)} {serializer' : Value}
    (h : NamesClass v entries serializer)
    (h' : NamesClass v entries' serializer') : entries = entries' ∧ serializer = serializer' := by
  obtain ⟨rfl, hs, -⟩ := h
  obtain ⟨hv, hs', -⟩ := h'
  obtain rfl := Value.dict.inj hv
  exact ⟨rfl, Option.some.inj (hs.symm.trans hs')⟩

theorem eventClass_eq (h : serializer.truthy → serializer.hashable) :
    m.eventClass serializer = .ok (m.classOf serializer) := by
  unfold Encoder.eventClass Encoder.classOf
  cases ht : serializer.truthy with
  | false =>
    cases serializer with
    | str name =>
      have hempty : name = "" := by simpa [Value.truthy] using ht
      simp [hempty]
    | _ => rfl
  | true =>
    rw [h ht]
    cases serializer with
    | str name =>
      have hname : name ≠ "" := by simpa [Value.truthy] using ht
      simp [hname]
    | _ => rfl

theorem reconstruct_plain (h : ¬ ∃ entries serializer, NamesClass v entries serializer) :
    m.reconstructEvent v = .ok (.plain v) := by
  cases v with
  | dict entries =>
    cases hs : get entries "m_serializer" with
    | none => simp [Encoder.reconstructEvent, hs]
    | some serializer =>
      have hnone : serializer = .none := by
        by_contra hne
        exact h ⟨entries, serializer, rfl, hs, hne⟩
      subst hnone
      simp [Encoder.reconstructEvent, hs]
  | _ => rfl

theorem reconstruct_names (h : NamesClass v entries serializer) :
    m.reconstructEvent v = m.reconstructAs entries serializer := by
  obtain ⟨rfl, hs, hne⟩ := h
  cases serializer with
  | none => exact absurd rfl hne
  | _ => simp [Encoder.reconstructEvent, hs]

theorem reconstruct_spec (h : NamesClass v entries serializer) :
    (m.Describes entries serializer →
      m.reconstructEvent v = .ok (.event (m.eventOf entries serializer))) ∧
    (¬ m.Describes entries serializer →
      ∃ text, m.reconstructEvent v = .error { type := .typeError, text := text }) := by
  rw [reconstruct_names h]
  unfold Encoder.reconstructAs
  constructor
  · intro hd
    obtain ⟨hhash, hresolve, hsort, haccepts⟩ := hd
    simp [eventClass_eq hhash, getFieldTypes, hresolve, hsort,
      (construct_spec m _ _).1 haccepts, Encoder.eventOf, bind, Except.bind]
  · intro hnot
    by_cases hhash : serializer.truthy → serializer.hashable
    · rw [eventClass_eq hhash]
      by_cases hresolve : (m.classOf serializer).resolvable = true
      · by_cases hsort : sortable (unknownKeys (m.classOf serializer).hints entries) = true
        · have hnaccepts : ¬ Accepts (m.classOf serializer)
              (filtered (m.classOf serializer).hints entries) :=
            fun haccepts => hnot ⟨hhash, hresolve, hsort, haccepts⟩
          obtain ⟨text, ht⟩ := (construct_spec m _ _).2 hnaccepts
          refine ⟨text, ?_⟩
          simp [getFieldTypes, hresolve, hsort, ht, bind, Except.bind]
        · simp [getFieldTypes, hresolve, hsort, bind, Except.bind]
      · simp [getFieldTypes, hresolve, bind, Except.bind]
    · obtain ⟨ht, hh⟩ := Classical.not_imp.mp hhash
      simp [Encoder.eventClass, ht, hh, bind, Except.bind]

end Taas.MsgEncoder
