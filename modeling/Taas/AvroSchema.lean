import Mathlib.Algebra.Order.Ring.Int
import Mathlib.Data.Rat.Defs
import Taas.MapAccum

/-!
`schema_cls_to_avro_schema`: the Avro schema of an event class. The annotations are those of
msgspec Structs, whose classes may mention each other and themselves. The recursion goes
through the Structs that are not in `defined` yet, and `fuel` bounds how deep they nest: with
one unit for each class of the program it does not run out.
-/
namespace Taas.AvroSchema

open MapAccum

/-- Types that contain no others; `other` is one without a mapping. -/
inductive PlainType
  | bool
  | int
  | float
  | str
  | bytes
  | none
  | datetime
  | date
  | time
  | decimal
  | uuid
  | other

/-- The annotation of a field. A set, and a tuple by its first argument, is a `list`; the keys of a
dict are not looked at. -/
inductive FieldType (S E : Type)
  | plain (t : PlainType)
  | list (item : FieldType S E)
  | bareList
  | dict (value : FieldType S E)
  | bareDict
  | struct (c : S)
  | enum (e : E)
  | union (members : List (FieldType S E))

namespace FieldType

variable {S E : Type}

def isUnion : FieldType S E → Bool
  | union _ => true
  | _ => false

/-- `member is type(None)`. -/
def isNone : FieldType S E → Bool
  | plain .none => true
  | _ => false

mutual

/-- No union directly in a union: Python flattens them. -/
def flat : FieldType S E → Bool
  | list item => item.flat
  | dict value => value.flat
  | union members => flatMembers members
  | _ => true

def flatMembers : List (FieldType S E) → Bool
  | [] => true
  | a :: members => !a.isUnion && a.flat && flatMembers members

end

end FieldType

/-- A default value. Members of `StrEnum` and `IntEnum` are strings and integers, `notFinite` is an
infinity or a NaN, and `other` is whatever is no scalar. -/
inductive Default
  | none
  | bool (b : Bool)
  | int (n : ℤ)
  | float (x : ℚ)
  | notFinite
  | str (s : String)
  | other

structure Field (S E : Type) where
  name : String
  type : FieldType S E
  default : Option Default := none
  flat : type.flat = true

structure StructClass (S E : Type) where
  name : String
  fields : List (Field S E)
  /-- A subclass of `BaseEvent`. -/
  isEvent : Bool := false

structure EnumClass where
  name : String
  symbols : List String

structure Program (S E : Type) where
  struct : S → StructClass S E
  enum : E → EnumClass
  structs : List S
  complete : ∀ c, c ∈ structs

/-- An Avro schema. `name` is a primitive type or a reference to a record; a record has its fields
with their types and defaults. -/
inductive AvroType
  | name (s : String)
  | logical (type logicalType : String)
  | array (items : AvroType)
  | map (values : AvroType)
  | enum (name : String) (symbols : List String)
  | record (name : String) (fields : List (String × AvroType × Option Default))
  | union (branches : List AvroType)

def Default.number : Default → Option ℚ
  | bool b => some (if b then 1 else 0)
  | int n => some n
  | float x => some x
  | _ => Option.none

def Default.same (a b : Default) : Bool :=
  match a.number, b.number with
  | some x, some y => x = y
  | Option.none, Option.none =>
    match a, b with
    | none, none | notFinite, notFinite | other, other => true
    | str s, str t => s = t
    | _, _ => false
  | _, _ => false

def sameDefault : Option Default → Option Default → Bool
  | none, none => true
  | some a, some b => a.same b
  | _, _ => false

namespace AvroType

mutual

/-- `a == b`. -/
def same : AvroType → AvroType → Bool
  | name s, name s' => s = s'
  | logical t l, logical t' l' => t = t' && l = l'
  | array t, array t' => same t t'
  | map t, map t' => same t t'
  | enum n symbols, enum n' symbols' => n = n' && symbols = symbols'
  | record n fields, record n' fields' => n = n' && sameFields fields fields'
  | union ts, union ts' => sameBranches ts ts'
  | _, _ => false

def sameFields : List (String × AvroType × Option Default) →
    List (String × AvroType × Option Default) → Bool
  | [], [] => true
  | (n, t, v) :: fields, (n', t', v') :: fields' =>
    n = n' && same t t' && sameDefault v v' && sameFields fields fields'
  | _, _ => false

def sameBranches : List AvroType → List AvroType → Bool
  | [], [] => true
  | t :: ts, t' :: ts' => same t t' && sameBranches ts ts'
  | _, _ => false

end

end AvroType

def fallback : AvroType := .name "string"

def PlainType.avro : PlainType → AvroType
  | bool => .name "boolean"
  | int => .name "long"
  | float => .name "double"
  | str => .name "string"
  | bytes => .name "bytes"
  | none => .name "null"
  | datetime => .logical "long" "timestamp-micros"
  | date => .logical "int" "date"
  | time => .logical "long" "time-micros"
  | decimal => .name "string"
  | uuid => .name "string"
  | other => fallback

/-- `branches.append(mapped)` if it is not in `branches`. -/
def addBranch (branches : List AvroType) (mapped : AvroType) : List AvroType :=
  if branches.any mapped.same then branches else branches ++ [mapped]

def unionOf : List AvroType → AvroType
  | [] => fallback
  | [t] => t
  | ts => .union ts

def nullFirst {S E : Type} (members : List (FieldType S E)) : List AvroType :=
  if members.any FieldType.isNone then [.name "null"] else []

/-- `_avro_default_for`; none is the no-default sentinel. -/
def avroDefaultFor (default : Option Default) (avroType : AvroType) : Option Default :=
  match avroType with
  | .union (.name "null" :: _) => some .none
  | _ =>
    match default with
    | some .other => none
    | default => default

namespace Program

variable {S E : Type} [DecidableEq S]

mutual

/-- `_avro_type_for`, where `recordSchema` is the recursion into a Struct. -/
def avroTypeFor (P : Program S E) (recordSchema : S → List S → Option (AvroType × List S)) :
    FieldType S E → List S → Option (AvroType × List S)
  | .union members, defined => do
    let (branches, defined) ←
      P.unionBranches recordSchema members (nullFirst members) defined
    return (unionOf branches, defined)
  | .plain t, defined => some (t.avro, defined)
  | .list item, defined => do
    let (items, defined) ← P.avroTypeFor recordSchema item defined
    return (.array items, defined)
  | .bareList, defined => some (.array fallback, defined)
  | .dict value, defined => do
    let (values, defined) ← P.avroTypeFor recordSchema value defined
    return (.map values, defined)
  | .bareDict, defined => some (.map fallback, defined)
  | .struct c, defined =>
    if c ∈ defined then some (.name (P.struct c).name, defined) else recordSchema c defined
  | .enum e, defined => some (.enum (P.enum e).name (P.enum e).symbols, defined)

def unionBranches (P : Program S E) (recordSchema : S → List S → Option (AvroType × List S)) :
    List (FieldType S E) → List AvroType → List S → Option (List AvroType × List S)
  | [], branches, defined => some (branches, defined)
  | member :: members, branches, defined =>
    if member.isNone then P.unionBranches recordSchema members branches defined
    else do
      let (mapped, defined) ← P.avroTypeFor recordSchema member defined
      P.unionBranches recordSchema members (addBranch branches mapped) defined

end

def fieldEntry (P : Program S E) (recordSchema : S → List S → Option (AvroType × List S))
    (field : Field S E) (defined : List S) :
    Option ((String × AvroType × Option Default) × List S) := do
  let (avroType, defined) ← P.avroTypeFor recordSchema field.type defined
  return ((field.name, avroType, avroDefaultFor field.default avroType), defined)

/-- `_record_schema`; none when the fuel runs out. -/
def recordSchema (P : Program S E) : ℕ → S → List S → Option (AvroType × List S)
  | 0, _, _ => none
  | fuel + 1, c, defined => do
    let (fields, defined) ←
      mapAccum (P.fieldEntry (P.recordSchema fuel)) (P.struct c).fields (defined ++ [c])
    return (.record (P.struct c).name fields, defined)

def schemaClsToAvroSchema (P : Program S E) (fuel : ℕ) (c : S) :
    Option (Except String AvroType) :=
  if (P.struct c).isEvent then (P.recordSchema fuel c []).map fun r => .ok r.1
  else some (.error
    ("Provided schema_cls " ++ (P.struct c).name ++ " is not a subclass of BaseEvent."))

end Program

end Taas.AvroSchema
