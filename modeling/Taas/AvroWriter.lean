import Taas.AvroLegal
import Taas.OutboxJson

/-!
fastavro under the schemas of event classes: what its documentation says of the types that
`_avro_type_for` maps to, and what follows for a value in a union, which JSON must leave as it is
but for dates.
-/
namespace Taas.AvroWriter

open AvroData AvroSchema Python SchemaRegistryEncoder OutboxJson

variable {O : Type}

def datumOf : Option Default → Datum (Scalar O)
  | some (.bool b) => .scalar (.bool b)
  | some (.int n) => .scalar (.int n)
  | some (.float x) => .scalar (.float x)
  | some .notFinite => .scalar .notFinite
  | some (.str s) => .scalar (.str s)
  | some .none | some .other | none => .scalar .none

mutual

/-- The schema that is parsed from the dict. -/
def schemaOf : AvroType → Schema Leaf (Scalar O)
  | .name s => if s ∈ primitives then .leaf (.primitive s) else .reference s
  | .logical type logicalType => .leaf (.logical type logicalType)
  | .array items => .array (schemaOf items)
  | .map values => .map (schemaOf values)
  | .enum name symbols => .leaf (.enum name symbols)
  | .record name fields => .record name (fieldSchemas fields)
  | .union branches => .union (branchSchemas branches)

def fieldSchemas : List (String × AvroType × Option Default) →
    List (String × Schema Leaf (Scalar O) × Datum (Scalar O))
  | [] => []
  | (name, t, default) :: fields => (name, schemaOf t, datumOf default) :: fieldSchemas fields

def branchSchemas : List AvroType → List (Schema Leaf (Scalar O))
  | [] => []
  | t :: ts => schemaOf t :: branchSchemas ts

end

def leafOf : PlainType → Leaf
  | .bool => .primitive "boolean"
  | .int => .primitive "long"
  | .float => .primitive "double"
  | .bytes => .primitive "bytes"
  | .none => .primitive "null"
  | .datetime => .logical "long" "timestamp-micros"
  | .date => .logical "int" "date"
  | .time => .logical "long" "time-micros"
  | .str | .decimal | .uuid | .other => .primitive "string"

theorem schemaOf_plain (t : PlainType) : (schemaOf t.avro : Schema Leaf (Scalar O)) =
    .leaf (leafOf t) := by
  cases t <;> rfl

theorem fieldSchemas_eq (fields : List (String × AvroType × Option Default)) :
    (fieldSchemas fields : List (String × Schema Leaf (Scalar O) × Datum (Scalar O))) =
      fields.map fun x => (x.1, schemaOf x.2.1, datumOf x.2.2) := by
  induction fields with
  | nil => rfl
  | cons x fields ih => rw [fieldSchemas, ih, List.map_cons]

theorem branchSchemas_eq (ts : List AvroType) :
    (branchSchemas ts : List (Schema Leaf (Scalar O))) = ts.map schemaOf := by
  induction ts with
  | nil => rfl
  | cons t ts ih => rw [branchSchemas, ih, List.map_cons]

/-- The schemas of annotations, down to the records. -/
inductive Generated : Schema Leaf (Scalar O) → Prop
  | plain (t : PlainType) : Generated (.leaf (leafOf t))
  | enum (name : String) (symbols : List String) : Generated (.leaf (.enum name symbols))
  | reference (name : String) : Generated (.reference name)
  | array {items : Schema Leaf (Scalar O)} : Generated items → Generated (.array items)
  | map {values : Schema Leaf (Scalar O)} : Generated values → Generated (.map values)
  | record (name : String) (fields : List (String × Schema Leaf (Scalar O) × Datum (Scalar O))) :
      Generated (.record name fields)
  | union {branches : List (Schema Leaf (Scalar O))} :
      (∀ s ∈ branches, Generated s) → Generated (.union branches)

/-- The scalars that validation lets through for a type. -/
def validates : PlainType → Scalar O → Prop
  | .none, .none | .bool, .bool _ | .int, .int _ | .float, .int _ | .float, .float _
  | .float, .notFinite | .bytes, .bytes _ | .datetime, .datetime _ | .datetime, .int _
  | .date, .date _ | .date, .datetime _ | .date, .int _ | .time, .time _ _ | .time, .int _
  | .str, .str _ | .decimal, .str _ | .uuid, .str _ | .other, .str _ => True
  | .date, .str s => (Date.fromisoformat s).isSome
  | _, _ => False

def IsDict : Datum (Scalar O) → Prop
  | .dict _ | .scalar (.object true _) => True
  | _ => False

/-- The most that validation lets through: tuples and sets are no arrays. -/
inductive Valid (F : Fastavro Leaf (Scalar O)) (root : Schema Leaf (Scalar O)) :
    Schema Leaf (Scalar O) → Datum (Scalar O) → Prop
  | plain {t : PlainType} {v : Scalar O} :
      validates t v → Valid F root (.leaf (leafOf t)) (.scalar v)
  | enum {name s : String} {symbols : List String} :
      s ∈ symbols → Valid F root (.leaf (.enum name symbols)) (.scalar (.str s))
  | reference {n : String} {s : Schema Leaf (Scalar O)} {d : Datum (Scalar O)} :
      F.resolve root n = some s → Valid F root s d → Valid F root (.reference n) d
  | array {items : Schema Leaf (Scalar O)} {xs : List (Datum (Scalar O))} :
      (∀ x ∈ xs, Valid F root items x) → Valid F root (.array items) (.list true xs)
  | map {values : Schema Leaf (Scalar O)} {es : List (String × Datum (Scalar O))} :
      (∀ x ∈ es, Valid F root values x.2) → Valid F root (.map values) (.dict es)
  | record {name : String} {fields : List (String × Schema Leaf (Scalar O) × Datum (Scalar O))}
      {d : Datum (Scalar O)} : IsDict d → Valid F root (.record name fields) d
  | union {branches : List (Schema Leaf (Scalar O))} {s : Schema Leaf (Scalar O)}
      {d : Datum (Scalar O)} : s ∈ branches → Valid F root s d → Valid F root (.union branches) d

def InLong (n : ℤ) : Prop := -2 ^ 63 ≤ n ∧ n < 2 ^ 63

/-- The scalars that JSON has and that are written under a leaf. -/
def Takes : Leaf → Scalar O → Prop
  | .primitive "null", .none | .primitive "boolean", .bool _ | .primitive "double", .float _
  | .primitive "string", .str _ => True
  | .primitive "long", .int n => InLong n
  | .enum _ symbols, .str s => s ∈ symbols
  | _, _ => False

/-- A datum that is no text and not `None`. -/
def NotText (d : Datum (Scalar O)) : Prop := d ≠ .scalar .none ∧ ∀ s, d ≠ .scalar (.str s)

/-- What is documented of fastavro, for the schemas of event classes: a union takes a branch that
the datum is valid for, names are those of records and Enums, and what each type is written from
and read back as. -/
structure Documented (F : Fastavro Leaf (Scalar O)) (root : Schema Leaf (Scalar O)) : Prop where
  choose : ∀ branches d s, (∀ b ∈ branches, Generated b) → F.choose root branches d = some s →
    s ∈ branches ∧ Valid F root s d
  resolve : ∀ n s, F.resolve root n = some s →
    (∃ name fields, s = .record name fields) ∨ ∃ name symbols, s = .leaf (.enum name symbols)
  takes : ∀ l v, Takes l v → F.write (.leaf l) (.scalar v) = some (.scalar v)
  string : ∀ d e, F.write (.leaf (.primitive "string")) d = some e → ∃ s, d = .scalar (.str s)
  enum : ∀ name symbols d e, F.write (.leaf (.enum name symbols)) d = some e →
    ∃ s ∈ symbols, d = .scalar (.str s)
  long : ∀ n e, F.write (.leaf (.primitive "long")) (.scalar (.int n)) = some e → InLong n
  double : F.write (.leaf (.primitive "double")) (.scalar .none) = none
  text : ∀ t ∈ [PlainType.bytes, .datetime, .time], ∀ s,
    F.write (.leaf (leafOf t)) (.scalar (.str s)) = none
  date : ∀ d, F.write (.leaf (leafOf .date)) (.scalar (.date d)) = some (.scalar (.date d))
  dateText : ∀ s, F.write (.leaf (leafOf .date)) (.scalar (.str s)) =
    (Date.fromisoformat s).map fun d => .scalar (.date d)
  dates : ∀ t v d, F.write (.leaf (leafOf t)) (.scalar v) = some (.scalar (.date d)) → t = .date
  map : ∀ values isDict o, F.write (.map values) (.scalar (.object isDict o)) = none
  record : ∀ name fields o, F.write (.record name fields) (.scalar (.object false o)) = none
  kept : ∀ t v e, validates t v → ¬ Plain v →
    F.write (.leaf (leafOf t)) (.scalar v) = some e → NotText e
  utc : ∀ t o, t.civil.utcoffset = some o →
    F.write (.leaf (leafOf .datetime)) (.scalar (.datetime t)) =
      t.utc.map fun u => .scalar (.datetime u)

/-- The second schema is the first, or a branch of it at any depth. -/
inductive Branch : Schema Leaf (Scalar O) → Schema Leaf (Scalar O) → Prop
  | self (s : Schema Leaf (Scalar O)) : Branch s s
  | union {branches : List (Schema Leaf (Scalar O))} {s t : Schema Leaf (Scalar O)} :
      s ∈ branches → Branch s t → Branch (.union branches) t

def NoRecord (s : Schema Leaf (Scalar O)) : Prop :=
  ∀ t, Branch s t → (∀ name fields, t ≠ .record name fields) ∧ ∀ n, t ≠ .reference n

/-- No dict in the datum lies where a record may be. -/
inductive Apart : Schema Leaf (Scalar O) → Datum (Scalar O) → Prop
  | scalar {s : Schema Leaf (Scalar O)} {v : Scalar O} :
      (IsDict (.scalar v) → NoRecord s) → Apart s (.scalar v)
  | list {s : Schema Leaf (Scalar O)} (b : Bool) {xs : List (Datum (Scalar O))} :
      (∀ items, Branch s (.array items) → ∀ x ∈ xs, Apart items x) → Apart s (.list b xs)
  | dict {s : Schema Leaf (Scalar O)} {es : List (String × Datum (Scalar O))} : NoRecord s →
      (∀ values, Branch s (.map values) → ∀ x ∈ es, Apart values x.2) → Apart s (.dict es)

/-- Neither a name nor a union. -/
def Bare : Schema Leaf (Scalar O) → Prop
  | .reference _ | .union _ => False
  | _ => True

variable {F : Fastavro Leaf (Scalar O)} {root s s' : Schema Leaf (Scalar O)} {M : Msgspec O}
  {d e j : Datum (Scalar O)} {v : Scalar O}

/-- The datum is valid for a schema of an annotation, and is read back under it as `e`. -/
structure Reads (F : Fastavro Leaf (Scalar O)) (root s : Schema Leaf (Scalar O))
    (d e : Datum (Scalar O)) : Prop where
  generated : Generated s
  valid : Valid F root s d
  written : Written F root s d e

theorem NoRecord.branch {branches : List (Schema Leaf (Scalar O))}
    (h : NoRecord (.union branches)) (hs : s ∈ branches) : NoRecord s :=
  fun t ht => h t (Branch.union hs ht)

theorem Apart.branch {branches : List (Schema Leaf (Scalar O))}
    (h : Apart (.union branches) d) (hs : s ∈ branches) : Apart s d := by
  cases h with
  | scalar hdict => exact Apart.scalar fun hd => (hdict hd).branch hs
  | list b hall => exact Apart.list b fun items hitems => hall items (Branch.union hs hitems)
  | dict hnone hall =>
    exact Apart.dict (hnone.branch hs) fun values hvalues => hall values (Branch.union hs hvalues)

/-- A schema that names lead to. -/
def Named : Schema Leaf (Scalar O) → Prop
  | .record _ _ | .leaf (.enum _ _) => True
  | _ => False

theorem exists_bare (hF : Documented F root) (h : Reads F root s d e) :
    ∃ t, Bare t ∧ Reads F root t d e ∧ (Branch s t ∨ ¬ NoRecord s ∧ Named t) := by
  obtain ⟨hgen, hvalid, hw⟩ := h
  induction hw with
  | @flat s d e hflat hwrite =>
    refine ⟨s, ?_, ⟨hgen, hvalid, Written.flat hflat hwrite⟩, Or.inl (Branch.self s)⟩
    cases s with
    | reference n => cases hflat
    | union branches => cases hflat
    | _ => trivial
  | @reference n s d e hresolve hw _ =>
    cases hvalid with
    | reference hresolve' hvalid =>
      rw [hresolve] at hresolve'
      cases hresolve'
      have hrecord : ¬ NoRecord (.reference n : Schema Leaf (Scalar O)) := by
        intro hnone
        exact (hnone _ (Branch.self _)).2 n rfl
      rcases hF.resolve _ _ hresolve with ⟨name, fields, rfl⟩ | ⟨name, symbols, rfl⟩
      · exact ⟨.record name fields, trivial, ⟨Generated.record name fields, hvalid, hw⟩,
          Or.inr ⟨hrecord, trivial⟩⟩
      · exact ⟨.leaf (.enum name symbols), trivial, ⟨Generated.enum name symbols, hvalid, hw⟩,
          Or.inr ⟨hrecord, trivial⟩⟩
  | @array items _ _ _ hlength hall =>
    exact ⟨.array items, trivial, ⟨hgen, hvalid, Written.array hlength hall⟩,
      Or.inl (Branch.self _)⟩
  | @map values _ _ hnodup hkeys hall =>
    exact ⟨.map values, trivial, ⟨hgen, hvalid, Written.map hnodup hkeys hall⟩,
      Or.inl (Branch.self _)⟩
  | @record name fields _ _ hkeys hall =>
    exact ⟨.record name fields, trivial, ⟨hgen, hvalid, Written.record hkeys hall⟩,
      Or.inl (Branch.self _)⟩
  | union hchoose hw ih =>
    cases hgen with
    | union hgen =>
      obtain ⟨hmem, hvalid⟩ := hF.choose _ _ _ hgen hchoose
      obtain ⟨t, hbare, hreads, hbranch⟩ := ih (hgen _ hmem) hvalid
      refine ⟨t, hbare, hreads, hbranch.imp (Branch.union hmem) ?_⟩
      exact And.imp_left fun hrecord hnone => hrecord (hnone.branch hmem)

theorem reads_list (hF : Documented F root) {b : Bool} {xs : List (Datum (Scalar O))}
    (h : Reads F root s (.list b xs) e) :
    b = true ∧ ∃ items ys, e = .list true ys ∧ List.Forall₂ (Reads F root items) xs ys ∧
      Branch s (.array items) := by
  obtain ⟨t, hbare, ⟨hgen, hvalid, hw⟩, hbranch⟩ := exists_bare hF h
  cases hvalid with
  | @array items _ hall =>
    obtain ⟨ys, rfl, hys⟩ := written_array.mp hw
    refine ⟨rfl, items, ys, rfl, ?_, hbranch.resolve_right fun hnamed => hnamed.2⟩
    cases hgen with
    | array hgen =>
      obtain ⟨hlength, hwritten⟩ := forall₂_iff_getElem?.mp hys
      refine forall₂_iff_getElem?.mpr ⟨hlength, ?_⟩
      intro i x y hx hy
      exact ⟨hgen, hall x (List.mem_of_getElem? hx), hwritten i x y hx hy⟩
  | record hdict => cases hdict
  | reference _ _ => cases hbare
  | union _ _ => cases hbare

theorem reads_dict (hF : Documented F root) {es : List (String × Datum (Scalar O))}
    (hs : NoRecord s) (h : Reads F root s (.dict es) e) :
    ∃ values ys, e = .dict ys ∧ Branch s (.map values) ∧
      List.Forall₂ (fun x y => y.1 = x.1 ∧ Reads F root values x.2 y.2) es ys := by
  obtain ⟨t, hbare, ⟨hgen, hvalid, hw⟩, hbranch⟩ := exists_bare hF h
  have hbranch := hbranch.resolve_right fun hrecord => hrecord.1 hs
  cases hvalid with
  | @map values _ hall =>
    obtain ⟨-, ys, rfl, hys⟩ := written_map.mp hw
    refine ⟨values, ys, rfl, hbranch, ?_⟩
    cases hgen with
    | map hgen =>
      obtain ⟨hlength, hwritten⟩ := forall₂_iff_getElem?.mp hys
      refine forall₂_iff_getElem?.mpr ⟨hlength, ?_⟩
      intro i x y hx hy
      obtain ⟨hkey, hwritten⟩ := hwritten i x y hx hy
      exact ⟨hkey, hgen, hall x (List.mem_of_getElem? hx), hwritten⟩
  | record _ => exact ((hs _ hbranch).1 _ _ rfl).elim
  | reference _ _ => cases hbare
  | union _ _ => cases hbare

/-- The texts and `None`. -/
def Textual : Scalar O → Prop
  | .none | .str _ => True
  | _ => False

/-- A text and `None` are read back as they are, or a text as the date that it gives. -/
theorem reads_textual (hF : Documented F root) (h : Reads F root s (.scalar v) e)
    (hv : Textual v) :
    e = .scalar v ∨ ∃ x d, v = .str x ∧ Date.fromisoformat x = some d ∧ e = .scalar (.date d) := by
  obtain ⟨t, hbare, ⟨-, hvalid, hw⟩, -⟩ := exists_bare hF h
  have htakes : (∃ l, t = .leaf l ∧ Takes l v) ∨ ∃ x, v = .str x ∧ t = .leaf (leafOf .date) := by
    cases hvalid with
    | @plain t _ hvalidates =>
      by_cases ht : t = .date
      · subst ht
        cases v with
        | str x => exact Or.inr ⟨x, rfl, rfl⟩
        | none => cases hvalidates
        | _ => cases hv
      · refine Or.inl ⟨leafOf t, rfl, ?_⟩
        cases v with
        | none => cases t <;> trivial
        | str x => cases t <;> trivial
        | _ => cases hv
    | enum hmem => exact Or.inl ⟨_, rfl, hmem⟩
    | record hdict => cases v <;> first | cases hdict | cases hv
    | reference _ _ => cases hbare
    | union _ _ => cases hbare
  rcases htakes with ⟨l, rfl, htakes⟩ | ⟨x, rfl, rfl⟩
  · rw [written_flat rfl, hF.takes l v htakes] at hw
    exact Or.inl (Option.some.inj hw).symm
  · rw [written_flat rfl, hF.dateText] at hw
    obtain ⟨d, hd, rfl⟩ := Option.map_eq_some_iff.mp hw
    exact Or.inr ⟨x, d, rfl, hd, rfl⟩

theorem scalar_textual {t : PlainType} (hplain : ¬ Plain v) (hvalidates : validates t v)
    (hj : M.scalar v = some j) : ∃ w, j = .scalar w ∧ Textual w := by
  cases v with
  | none | bool _ | int _ | float _ | str _ => exact absurd trivial hplain
  | object isDict o => cases t <;> cases hvalidates
  | _ => exact ⟨_, (Option.some.inj hj).symm, trivial⟩

theorem date_of_reads (hF : Documented F root) {t : PlainType} {x : String} {day : Date}
    (hplain : ¬ Plain v) (hvalidates : validates t v)
    (hw : F.write (.leaf (leafOf t)) (.scalar v) = some (.scalar (.date day)))
    (hj : M.scalar v = some (.scalar (.str x))) (hx : Date.fromisoformat x = some day) :
    DatesOnly (.scalar v) := by
  obtain rfl := hF.dates t v day hw
  cases v with
  | date d => exact DatesOnly.date d
  | datetime t =>
    cases hj
    rw [Date.fromisoformat_rfc3339] at hx
    cases hx
  | int n => exact absurd trivial hplain
  | str s => exact absurd trivial hplain
  | _ => cases hvalidates

theorem datesOnly_scalar (hF : Documented F root) (h : Reads F root s (.scalar v) e)
    (h' : Reads F root s' j e) (hj : M.scalar v = some j)
    (hapart : Apart s (.scalar v)) : DatesOnly (.scalar v) := by
  by_cases hplain : Plain v
  · exact DatesOnly.scalar hplain
  obtain ⟨t, hbare, ⟨-, hvalid, hw⟩, hbranch⟩ := exists_bare hF h
  cases hvalid with
  | plain hvalidates =>
    rw [written_flat rfl] at hw
    obtain ⟨hnone, htext⟩ := hF.kept _ _ _ hvalidates hplain hw
    obtain ⟨w, rfl, htextual⟩ := scalar_textual hplain hvalidates hj
    rcases reads_textual hF h' htextual with hsame | ⟨x, day, rfl, hx, rfl⟩
    · cases w with
      | none => exact absurd hsame hnone
      | str x => exact absurd hsame (htext x)
      | _ => cases htextual
    · exact date_of_reads hF hplain hvalidates hw hj hx
  | enum _ => exact absurd trivial hplain
  | record hdict =>
    cases hapart with
    | scalar hs =>
      rcases hbranch with hbranch | ⟨hrecord, -⟩
      · exact absurd rfl ((hs hdict _ hbranch).1 _ _)
      · exact absurd (hs hdict) hrecord
  | reference _ _ => cases hbare
  | union _ _ => cases hbare

/-- A value that is read back as what JSON makes of it is one that JSON leaves as it is but for
dates. -/
theorem datesOnly_of_reads (hF : Documented F root) (h : Reads F root s d e)
    (h' : Reads F root s' j e) (hj : M.json d = some j) (hapart : Apart s d)
    (hapart' : Apart s' d) : DatesOnly d := by
  induction d using Datum.induct generalizing s s' e j with
  | hscalar v =>
    rw [Msgspec.json] at hj
    exact datesOnly_scalar hF h h' hj hapart
  | hlist b xs ih =>
    obtain ⟨js, rfl, hjs⟩ := json_list_eq_some.mp hj
    obtain ⟨rfl, items, ys, rfl, hys, hitems⟩ := reads_list hF h
    obtain ⟨-, items', ys', hsame, hys', hitems'⟩ := reads_list hF h'
    cases hsame
    refine DatesOnly.list fun x hx => ?_
    obtain ⟨jx, y, hjson, hreads, hreads'⟩ := forall₂_beside hys hjs hys' hx
    cases hapart with
    | list _ hall =>
      cases hapart' with
      | list _ hall' =>
        exact ih x hx hreads hreads' hjson (hall items hitems x hx) (hall' items' hitems' x hx)
  | hdict es ih =>
    cases hapart with
    | dict hnone hall =>
      cases hapart' with
      | dict hnone' hall' =>
        obtain ⟨js, rfl, hjs⟩ := json_dict_eq_some.mp hj
        obtain ⟨values, ys, rfl, hvalues, hys⟩ := reads_dict hF hnone h
        obtain ⟨values', ys', hsame, hvalues', hys'⟩ := reads_dict hF hnone' h'
        cases hsame
        refine DatesOnly.dict fun x hx => ?_
        obtain ⟨jx, y, hjson, hreads, hreads'⟩ := forall₂_beside hys hjs hys' hx
        exact ih x hx hreads.2 hreads'.2 hjson.2 (hall values hvalues x hx)
          (hall' values' hvalues' x hx)

end Taas.AvroWriter
