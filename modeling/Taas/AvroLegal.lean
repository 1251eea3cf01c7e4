import Mathlib.Tactic.MkIffOfInductiveProp
import Taas.AvroOutline

/-!
Legal Avro schemas, and the conditions on an outline that they come from. What may go wrong is
read off the outline: two definitions under one name (an Enum is defined wherever it is
mentioned), union members of one Avro type, and defaults that are no values of the first member.
-/
namespace Taas.AvroSchema

def primitives : List String :=
  ["null", "boolean", "int", "long", "float", "double", "bytes", "string"]

namespace AvroType

mutual

/-- The schema and all schemas in it, in the order of the document. -/
def nodes : AvroType → List AvroType
  | array items => array items :: items.nodes
  | map values => map values :: values.nodes
  | record n fields => record n fields :: fieldNodes fields
  | union ts => union ts :: branchNodes ts
  | t => [t]

def fieldNodes : List (String × AvroType × Option Default) → List AvroType
  | [] => []
  | (_, t, _) :: fields => t.nodes ++ fieldNodes fields

def branchNodes : List AvroType → List AvroType
  | [] => []
  | t :: ts => t.nodes ++ branchNodes ts

end

def isUnion : AvroType → Bool
  | union _ => true
  | _ => false

def definedName : AvroType → Option String
  | enum n _ | record n _ => some n
  | _ => none

/-- The names that a schema defines, in the order of the document. -/
def definitions (t : AvroType) : List String := t.nodes.filterMap definedName

/-- The Avro type of a schema that has no name. -/
def unnamedType : AvroType → Option String
  | name s => if s ∈ primitives then some s else none
  | logical t _ => some t
  | array _ => some "array"
  | map _ => some "map"
  | enum _ _ | record _ _ | union _ => none

/-- The JSON values of the primitive types; those of bytes are texts of code points below 256. -/
def primitiveAdmits (s : String) (v : Default) : Bool :=
  match v with
  | .none => s = "null"
  | .bool _ => s = "boolean"
  | .int n => s = "int" ∧ -2 ^ 31 ≤ n ∧ n < 2 ^ 31 ∨ s = "long" ∧ -2 ^ 63 ≤ n ∧ n < 2 ^ 63 ∨
      s = "float" ∨ s = "double"
  | .float _ => s = "float" ∨ s = "double"
  | .str text => s = "string" ∨ s = "bytes" ∧ text.toList.all fun c => c.toNat < 256
  | .notFinite | .other => false

def branchAdmits : AvroType → Default → Bool
  | name s, v => primitiveAdmits s v
  | logical t _, v => primitiveAdmits t v
  | enum _ symbols, .str s => s ∈ symbols
  | _, _ => false

/-- The value is a default of the type: of the first branch of a union. -/
def admits : AvroType → Default → Bool
  | union (t :: _), v => t.branchAdmits v
  | t, v => t.branchAdmits v

/-- A legal schema: every name is defined once, a reference comes after the definition starts, no
union is directly in a union or has two branches of one unnamed type, and defaults are values. -/
structure Legal (t : AvroType) : Prop where
  defined : t.definitions.Nodup
  fresh : ∀ n ∈ t.definitions, n ∉ primitives
  referenced : ∀ l s r, t.nodes = l ++ name s :: r →
    s ∈ primitives ∨ s ∈ l.filterMap definedName
  unions : ∀ ts, union ts ∈ t.nodes →
    (∀ t ∈ ts, t.isUnion = false) ∧ (ts.filterMap unnamedType).Nodup
  defaults : ∀ n fields, record n fields ∈ t.nodes → ∀ x ∈ fields, ∀ v ∈ x.2.2, x.2.1.admits v

end AvroType

def PlainType.unnamedType : PlainType → String
  | bool => "boolean"
  | int | datetime | time => "long"
  | float => "double"
  | str | decimal | uuid | other => "string"
  | bytes => "bytes"
  | none => "null"
  | date => "int"

/-- The defaults that the schema of a plain type can have. -/
def PlainType.fits (t : PlainType) (v : Default) : Bool :=
  match v with
  | .none => (t matches .none)
  | .bool _ => (t matches .bool)
  | .int n => (t matches .int | .datetime | .time) ∧ -2 ^ 63 ≤ n ∧ n < 2 ^ 63 ∨
      (t matches .float) ∨ (t matches .date) ∧ -2 ^ 31 ≤ n ∧ n < 2 ^ 31
  | .float _ => (t matches .float)
  | .str s => (t matches .str | .decimal | .uuid | .other) ∨
      (t matches .bytes) ∧ s.toList.all fun c => c.toNat < 256
  | .notFinite | .other => false

variable {S E : Type} {P : Program S E}

namespace Outline

mutual

/-- The outline and all outlines in it, in the order of the walk. -/
def parts : Outline S E → List (Outline S E)
  | list item => list item :: item.parts
  | dict value => dict value :: value.parts
  | struct c fields => struct c fields :: fieldParts fields
  | union members => union members :: memberParts members
  | u => [u]

def fieldParts : List (Field S E × Outline S E) → List (Outline S E)
  | [] => []
  | (_, u) :: fields => u.parts ++ fieldParts fields

def memberParts : List (Outline S E) → List (Outline S E)
  | [] => []
  | u :: members => u.parts ++ memberParts members

end

def isUnion : Outline S E → Bool
  | union _ => true
  | _ => false

def definedClass : Outline S E → Option (S ⊕ E)
  | enum e => some (.inr e)
  | struct c _ => some (.inl c)
  | _ => none

def unnamedType : Outline S E → Option String
  | plain t => some t.unnamedType
  | list _ => some "array"
  | dict _ => some "map"
  | _ => none

/-- None and another type. -/
def nullable : Outline S E → Bool
  | union (plain .none :: _) => true
  | _ => false

def memberFits (P : Program S E) : Outline S E → Default → Bool
  | plain t, v => t.fits v
  | enum e, .str s => s ∈ (P.enum e).symbols
  | _, _ => false

/-- The default is a value of the type, of the first member of a union. -/
def fits (P : Program S E) : Outline S E → Default → Bool
  | union (u :: _), v => u.memberFits P v
  | u, v => u.memberFits P v

end Outline

/-- A static default stays out of a nullable field, and fits any other. -/
def Field.defaultFits (P : Program S E) (f : Field S E) (u : Outline S E) : Bool :=
  u.nullable ||
    match f.default with
    | none | some .other => true
    | some v => u.fits P v

def Program.nameOf (P : Program S E) : S ⊕ E → String
  | .inl c => (P.struct c).name
  | .inr e => (P.enum e).name

/-- The classes that are defined, a Struct where it is met first and an Enum at every mention. -/
def Outline.definitions (u : Outline S E) : List (S ⊕ E) := u.parts.filterMap definedClass

/-- The Enums, each as often as it is mentioned. -/
def Outline.enums (u : Outline S E) : List E := u.definitions.filterMap Sum.getRight?

/-- The members of a union have distinct Avro types. -/
def Outline.membersDiffer : Outline S E → Bool
  | union members => (members.filterMap unnamedType).Nodup
  | _ => true

def Outline.defaultsFit (P : Program S E) : Outline S E → Bool
  | struct _ fields => fields.all fun x => x.1.defaultFits P x.2
  | _ => true

/-- Every Enum is mentioned once, and the names of classes are distinct and no primitive types;
the members of every union differ and the defaults of every Struct fit. -/
@[mk_iff]
structure Outline.Clean (P : Program S E) (u : Outline S E) : Prop where
  enums : u.enums.Nodup
  names : ∀ k ∈ u.definitions, ∀ k' ∈ u.definitions, P.nameOf k = P.nameOf k' → k = k'
  fresh : ∀ k ∈ u.definitions, P.nameOf k ∉ primitives
  unions : ∀ w ∈ u.parts, w.membersDiffer
  defaults : ∀ w ∈ u.parts, w.defaultsFit P

instance [DecidableEq S] [DecidableEq E] (u : Outline S E) : Decidable (u.Clean P) :=
  decidable_of_iff _ (Outline.clean_iff P u).symm

theorem AvroType.branchNodes_eq (ts : List AvroType) : branchNodes ts = ts.flatMap nodes := by
  induction ts with
  | nil => rfl
  | cons t ts ih => rw [branchNodes, ih, List.flatMap_cons]

theorem AvroType.fieldNodes_eq (fields : List (String × AvroType × Option Default)) :
    fieldNodes fields = fields.flatMap fun x => x.2.1.nodes := by
  induction fields with
  | nil => rfl
  | cons x fields ih => rw [fieldNodes, ih, List.flatMap_cons]

namespace Outline

theorem memberParts_eq (us : List (Outline S E)) : memberParts us = us.flatMap parts := by
  induction us with
  | nil => rfl
  | cons u us ih => rw [memberParts, ih, List.flatMap_cons]

theorem fieldParts_eq (fields : List (Field S E × Outline S E)) :
    fieldParts fields = fields.flatMap fun x => x.2.parts := by
  induction fields with
  | nil => rfl
  | cons x fields ih => rw [fieldParts, ih, List.flatMap_cons]

/-- The nodes of the schema are the parts of the outline in Avro's terms. -/
theorem nodes_avro (u : Outline S E) : (u.avro P).nodes = u.parts.map (avro P) := by
  induction u using induct with
  | hplain t => cases t <;> rfl
  | hlist item ih => simp [avro, AvroType.nodes, parts, ih]
  | hdict value ih => simp [avro, AvroType.nodes, parts, ih]
  | henum e => rfl
  | hknown c => rfl
  | hstruct c fields ih =>
    simp only [avro, AvroType.nodes, parts, avroFields_eq, AvroType.fieldNodes_eq, fieldParts_eq,
      List.flatMap_map, List.map_cons, List.map_flatMap]
    congr 1
    exact List.flatMap_congr ih
  | hunion members ih =>
    simp only [avro, AvroType.nodes, parts, avroMembers_eq, AvroType.branchNodes_eq,
      memberParts_eq, List.flatMap_map, List.map_cons, List.map_flatMap]
    congr 1
    exact List.flatMap_congr ih

theorem definedName_avro (u : Outline S E) :
    (u.avro P).definedName = u.definedClass.map P.nameOf := by
  cases u with
  | plain t => cases t <;> rfl
  | _ => rfl

theorem definitions_avro (u : Outline S E) :
    (u.avro P).definitions = u.definitions.map P.nameOf := by
  rw [AvroType.definitions, nodes_avro, List.filterMap_map, definitions, List.map_filterMap]
  exact List.filterMap_congr fun w _ => definedName_avro w

theorem isUnion_avro (u : Outline S E) : (u.avro P).isUnion = u.isUnion := by
  cases u with
  | plain t => cases t <;> rfl
  | _ => rfl

/-- A Struct that was met has the name of no primitive type. -/
def KnownFresh (P : Program S E) (u : Outline S E) : Prop :=
  ∀ c, u = known c → (P.struct c).name ∉ primitives

theorem unnamedType_avro {u : Outline S E} (hknown : u.KnownFresh P) :
    (u.avro P).unnamedType = u.unnamedType := by
  cases u with
  | plain t => cases t <;> rfl
  | known c => exact if_neg (hknown c rfl)
  | _ => rfl

theorem primitiveAdmits_of_not_mem {s : String} (h : s ∉ primitives) (v : Default) :
    AvroType.primitiveAdmits s v = false := by
  have hne : ∀ t ∈ primitives, s ≠ t := by
    intro t ht heq
    exact h (heq ▸ ht)
  simp only [primitives, List.forall_mem_cons] at hne
  cases v <;> simp [AvroType.primitiveAdmits, hne]

theorem branchAdmits_avro {u : Outline S E} (hknown : u.KnownFresh P) (v : Default) :
    (u.avro P).branchAdmits v = u.memberFits P v := by
  cases u with
  | plain t =>
    cases t <;> cases v <;>
      simp [avro, PlainType.avro, fallback, AvroType.branchAdmits, AvroType.primitiveAdmits,
        memberFits, PlainType.fits]
  | known c => exact primitiveAdmits_of_not_mem (hknown c rfl) v
  | enum e => cases v <;> rfl
  | _ => rfl

theorem admits_avro {u : Outline S E} (hknown : u.KnownFresh P)
    (hmembers : ∀ w members, u = union (w :: members) → w.KnownFresh P) (v : Default) :
    (u.avro P).admits v = u.fits P v := by
  cases u with
  | plain t => cases t <;> exact branchAdmits_avro hknown v
  | union members =>
    cases members with
    | nil => rfl
    | cons w members => exact branchAdmits_avro (hmembers w members rfl) v
  | _ => exact branchAdmits_avro hknown v

theorem avroDefaultFor_nullable {u : Outline S E} (h : u.nullable = true)
    (default : Option Default) : avroDefaultFor default (u.avro P) = some .none := by
  match u, h with
  | union (plain .none :: _), _ => rfl

theorem avroDefaultFor_static {u : Outline S E} (h : u.nullable = false)
    (hmembers : ∀ w members, u = union (w :: members) → w.KnownFresh P)
    (default : Option Default) : avroDefaultFor default (u.avro P) =
      match default with
      | some .other => none
      | default => default := by
  unfold avroDefaultFor
  split
  · rename_i ts hts
    cases u with
    | plain t => cases t <;> cases hts
    | union members =>
      cases members with
      | nil => cases hts
      | cons w members =>
        simp only [avro, avroMembers, AvroType.union.injEq, List.cons.injEq] at hts
        cases w with
        | plain t => cases t <;> simp_all [avro, PlainType.avro, fallback, nullable]
        | known c =>
          have hname : (P.struct c).name = "null" := by simpa [avro] using hts.1
          exact absurd (by rw [hname]; decide) (hmembers _ members rfl c rfl)
        | _ => simp [avro] at hts
    | _ => cases hts
  · rfl

/-- The default of a field is one of its type exactly when it fits the outline. -/
theorem default_admitted_iff {u : Outline S E} (hknown : u.KnownFresh P)
    (hmembers : ∀ w members, u = union (w :: members) → w.KnownFresh P) (f : Field S E) :
    (∀ v ∈ avroDefaultFor f.default (u.avro P), (u.avro P).admits v) ↔ f.defaultFits P u := by
  unfold Field.defaultFits
  cases hn : u.nullable with
  | true =>
    rw [avroDefaultFor_nullable hn]
    match u, hn with
    | union (plain .none :: _), _ => simp [avro, avroMembers, AvroType.admits, PlainType.avro,
        AvroType.branchAdmits, AvroType.primitiveAdmits]
  | false =>
    rw [avroDefaultFor_static hn hmembers]
    cases f.default with
    | none => simp
    | some v => cases v <;> simp [admits_avro hknown hmembers]

end Outline

/-- The induction on schemas, with the fields of a record and the branches of a union. -/
theorem AvroType.induct {Q : AvroType → Prop} (hname : ∀ s, Q (name s))
    (hlogical : ∀ t l, Q (logical t l)) (harray : ∀ t, Q t → Q (array t))
    (hmap : ∀ t, Q t → Q (map t)) (henum : ∀ n symbols, Q (enum n symbols))
    (hrecord : ∀ n fields, (∀ x ∈ fields, Q x.2.1) → Q (record n fields))
    (hunion : ∀ ts, (∀ t ∈ ts, Q t) → Q (union ts)) (t : AvroType) : Q t := by
  refine @AvroType.rec Q (fun fields => ∀ x ∈ fields, Q x.2.1) (fun ts => ∀ t ∈ ts, Q t)
    (fun x => Q x.2.1) (fun x => Q x.1) hname hlogical harray hmap henum hrecord hunion
    ?_ ?_ ?_ ?_ (fun _ _ h => h) (fun _ _ h => h) t
  · simp
  · intro x fields hx hfields y hy
    rcases List.mem_cons.mp hy with rfl | hy
    · exact hx
    · exact hfields y hy
  · simp
  · intro t ts ht hts w hw
    rcases List.mem_cons.mp hw with rfl | hw
    · exact ht
    · exact hts w hw

namespace AvroType

theorem definitions_fields_same {fields fields' : List (String × AvroType × Option Default)}
    (ih : ∀ x ∈ fields, ∀ t', x.2.1.same t' → x.2.1.definitions = t'.definitions)
    (h : sameFields fields fields') :
    (fieldNodes fields).filterMap definedName = (fieldNodes fields').filterMap definedName := by
  induction fields generalizing fields' with
  | nil => cases fields' <;> first | rfl | cases h
  | cons x fields ihfields =>
    cases fields' with
    | nil => cases h
    | cons x' fields' =>
      simp only [sameFields, Bool.and_eq_true] at h
      have hfirst := ih x List.mem_cons_self x'.2.1 h.1.1.2
      have hrest := ihfields (fun y hy => ih y (List.mem_cons_of_mem x hy)) h.2
      simp only [fieldNodes, List.filterMap_append, hrest]
      rw [← definitions, ← definitions, hfirst]

theorem definitions_branches_same {ts ts' : List AvroType}
    (ih : ∀ t ∈ ts, ∀ t', t.same t' → t.definitions = t'.definitions)
    (h : sameBranches ts ts') :
    (branchNodes ts).filterMap definedName = (branchNodes ts').filterMap definedName := by
  induction ts generalizing ts' with
  | nil => cases ts' <;> first | rfl | cases h
  | cons t ts ihts =>
    cases ts' with
    | nil => cases h
    | cons t' ts' =>
      simp only [sameBranches, Bool.and_eq_true] at h
      have hfirst := ih t List.mem_cons_self t' h.1
      have hrest := ihts (fun u hu => ih u (List.mem_cons_of_mem t hu)) h.2
      simp only [branchNodes, List.filterMap_append, hrest]
      rw [← definitions, ← definitions, hfirst]

theorem definitions_same {t t' : AvroType} (h : t.same t') : t.definitions = t'.definitions := by
  induction t using induct generalizing t' with
  | hname s => cases t' <;> first | rfl | cases h
  | hlogical t l => cases t' <;> first | rfl | cases h
  | harray t ih =>
    cases t' with
    | array t' =>
      have hitems : t.same t' := h
      have hequal := ih hitems
      exact hequal
    | _ => cases h
  | hmap t ih =>
    cases t' with
    | map t' =>
      have hvalues : t.same t' := h
      have hequal := ih hvalues
      exact hequal
    | _ => cases h
  | henum n symbols =>
    cases t' with
    | enum n' symbols' =>
      simp only [same, Bool.and_eq_true, decide_eq_true_eq] at h
      rw [h.1]
      rfl
    | _ => cases h
  | hrecord n fields ih =>
    cases t' with
    | record n' fields' =>
      simp only [same, Bool.and_eq_true, decide_eq_true_eq] at h
      have hfields := definitions_fields_same (fun x hx t' => ih x hx) h.2
      simp [definitions, nodes, definedName, h.1, hfields]
    | _ => cases h
  | hunion ts ih =>
    cases t' with
    | union ts' => exact definitions_branches_same (fun t ht t' => ih t ht) h
    | _ => cases h

end AvroType

end Taas.AvroSchema
