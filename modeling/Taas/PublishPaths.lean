import Taas.StableValues

/-!
The two ways to publish an event: `encode_event` on what `as_dict` gives, and on what the JSON
column of the outbox makes of that. An event goes both ways when each of its fields does.
-/
namespace Taas.PublishPaths

open AvroData AvroSchema Python SchemaRegistryEncoder OutboxJson AvroWriter EventValues
  StableValues

variable {S E O : Type} {F : Fastavro Leaf (Scalar O)} {M : Msgspec O} {d : Datum (Scalar O)}

/-- What `as_dict` gives of an instance of the class. -/
structure Event (P : Program S E) (c : S) (O : Type) where
  data : List (String × Datum (Scalar O))
  conforms : List.Forall₂ (fun f x => x.1 = f.name ∧ Conforms f.type x.2) (P.struct c).fields data
  nodup : (data.map Prod.fst).Nodup
  /-- The field that every event has. -/
  eventType : String
  typed : data.lookup "event_type" = some (.scalar (.str eventType))

/-- Both paths succeed, and what they publish is decoded to one record. -/
def PathsAgree (F : Fastavro Leaf (Scalar O)) (M : Msgspec O) (e : Encoder Leaf O)
    (hashable : Datum (Scalar O) → Bool) (topic : String)
    (data : List (String × Datum (Scalar O))) : Prop :=
  ∃ d data', Encodes F e hashable topic data d ∧ M.jsonEntries data = some data' ∧
    Encodes F e hashable topic data' d

/-- Every field of the schema, with the value that the event has for it. -/
def EachField (schema : Schema Leaf (Scalar O)) (data : List (String × Datum (Scalar O)))
    (p : Schema Leaf (Scalar O) → Datum (Scalar O) → Prop) : Prop :=
  ∀ k s default v, ((fieldsOf schema).getD []).lookup k = some (s, default) →
    data.lookup k = some v → p s v

variable {P : Program S E} {c : S} {schema : Schema Leaf (Scalar O)}
  {data data' : List (String × Datum (Scalar O))} {enc : Encoder Leaf O}
  {hashable : Datum (Scalar O) → Bool} {topic : String}

/-- The schema of a class is a record with the keys of its events, and their values fit it. -/
theorem fits_event [DecidableEq S] {fuel : ℕ} {t : AvroType}
    (hschema : P.schemaClsToAvroSchema fuel c = some (.ok t)) (hlegal : t.Legal)
    (event : Event P c O) :
    ∃ name fields, (schemaOf t : Schema Leaf (Scalar O)) = .record name fields ∧
      List.Forall₂ (fun x y => y.1 = x.1 ∧ Fits y.2.1 x.2) event.data fields := by
  obtain ⟨entries, rfl, hentries⟩ := covers_fields (O := O) hschema hlegal
  refine ⟨_, _, rfl, ?_⟩
  rw [fieldSchemas_eq, List.forall₂_map_right_iff]
  refine (forall₂_sides event.conforms hentries).imp ?_
  rintro x y ⟨f, ⟨hname, hconforms⟩, hname', hcovers⟩
  exact ⟨hname'.trans hname.symm, hcovers.fits x.2 hconforms⟩

/-- What JSON makes of an event has the same keys and the same event type. -/
theorem eventTypeOf_json (event : Event P c O) (h : M.jsonEntries event.data = some data') :
    eventTypeOf data' = .scalar (.str event.eventType) := by
  obtain ⟨v, hv, hj⟩ := forall₂_lookup (R := fun _ x y => M.json x = some y)
    (jsonEntries_eq_some.mp h) event.typed
  cases hj
  rw [eventTypeOf, hv]
  rfl

theorem encodes_record_iff (hfound : enc.getSchema hashable topic (eventTypeOf data) = .ok schema)
    {name : String} {fields : List (String × Schema Leaf (Scalar O) × Datum (Scalar O))}
    (hrecord : schema = .record name fields) (hkeys : data.map Prod.fst = fields.map Prod.fst) :
    Encodes F enc hashable topic data d ↔ F.parses schema ∧ ∃ es, d = .dict es ∧
      es.map Prod.fst = fields.map Prod.fst ∧
      ∀ k s default v w, fields.lookup k = some (s, default) → data.lookup k = some v →
        es.lookup k = some w → Written F schema s (prepareValue (some s) v) w := by
  subst hrecord
  have hprepared : ∀ k s default v, fields.lookup k = some (s, default) →
      data.lookup k = some v →
      (prepareForAvro data (.record name fields)).lookup k = some (prepareValue (some s) v) := by
    intro k s default v hfield hv
    rw [lookup_prepareForAvro, fieldsOf, Option.getD_some, hfield, hv]
    rfl
  constructor
  · intro h
    obtain ⟨schema', hencodable, hw⟩ := encodes_iff.mp h
    have hsame := hencodable.found
    rw [hfound] at hsame
    cases hsame
    obtain ⟨es, rfl, hes, hall⟩ := written_record.mp hw
    refine ⟨hencodable.parses, es, rfl, hes, ?_⟩
    intro k s default v w hfield hv hread
    have hw := hall k s default w hfield hread
    rwa [hprepared k s default v hfield hv, Option.getD_some] at hw
  · rintro ⟨hparses, es, rfl, hes, hall⟩
    have hw : Written F (.record name fields) (.record name fields)
        (.dict (prepareForAvro data (.record name fields))) (.dict es) := by
      refine written_record.mpr ⟨es, rfl, hes, ?_⟩
      intro k s default w hfield hread
      obtain ⟨v, hv⟩ := Option.isSome_iff_exists.mp
        ((lookup_of_keys hkeys).mpr (by rw [hfield]; rfl))
      rw [hprepared k s default v hfield hv, Option.getD_some]
      exact hall k s default v w hfield hv hread
    refine encodes_iff.mpr ⟨_, ⟨hfound, ⟨fields, rfl, ?_⟩, hparses, _, hw⟩, hw⟩
    intro k hk
    rwa [hkeys] at hk

/-- The values of an event fit the fields of a record. -/
structure EventOf (schema : Schema Leaf (Scalar O)) (data : List (String × Datum (Scalar O)))
    (name : String) (fields : List (String × Schema Leaf (Scalar O) × Datum (Scalar O))) :
    Prop where
  record : schema = .record name fields
  fits : List.Forall₂ (fun x y => y.1 = x.1 ∧ Fits y.2.1 x.2) data fields
  nodup : (data.map Prod.fst).Nodup

theorem EventOf.keys {name : String}
    {fields : List (String × Schema Leaf (Scalar O) × Datum (Scalar O))}
    (h : EventOf schema data name fields) : data.map Prod.fst = fields.map Prod.fst :=
  (keys_eq (R := fun v (y : Schema Leaf (Scalar O) × Datum (Scalar O)) => Fits y.1 v) h.fits).symm

theorem EventOf.field {name : String}
    {fields : List (String × Schema Leaf (Scalar O) × Datum (Scalar O))}
    (h : EventOf schema data name fields) {k : String} {v : Datum (Scalar O)}
    (hv : data.lookup k = some v) :
    ∃ s default, fields.lookup k = some (s, default) ∧ Fits s v := by
  obtain ⟨⟨s, default⟩, hfield, hfits⟩ := forall₂_lookup
    (R := fun _ v (y : Schema Leaf (Scalar O) × Datum (Scalar O)) => Fits y.1 v) h.fits hv
  exact ⟨s, default, hfield, hfits⟩

variable {name : String} {fields : List (String × Schema Leaf (Scalar O) × Datum (Scalar O))}

theorem exists_values (hF : Documented F schema) (hevent : EventOf schema data name fields)
    (hkeeps : EachField schema data (KeepsField F schema)) :
    ∃ ps : List (String × Datum (Scalar O) × Datum (Scalar O)),
      List.Forall₂ (fun x p => p.1 = x.1 ∧ (M.json x.2 = some p.2.1 ∧
        ∀ s default, fields.lookup x.1 = some (s, default) → Written F schema s x.2 p.2.2 ∧
          Written F schema s (prepareValue (some s) p.2.1) p.2.2)) data ps := by
  apply exists_forall₂
  intro x hx
  have hv := (lookup_eq_some_iff hevent.nodup).mpr hx
  obtain ⟨s, default, hfield, -⟩ := hevent.field hv
  have hkept : KeepsField F schema s x.2 := by
    apply hkeeps x.1 s default x.2 ?_ hv
    rw [hevent.record]
    exact hfield
  obtain ⟨j, e, hj, hw, hw'⟩ := field_both (M := M) hF hkept
  refine ⟨(x.1, j, e), rfl, hj, ?_⟩
  intro s' default' hfield'
  rw [hfield] at hfield'
  cases hfield'
  exact ⟨hw, hw'⟩

theorem agree_of_kept (hF : Documented F schema) (hevent : EventOf schema data name fields)
    (hfound : enc.getSchema hashable topic (eventTypeOf data) = .ok schema)
    (hjson : ∀ data', M.jsonEntries data = some data' → eventTypeOf data' = eventTypeOf data)
    (hparses : F.parses schema) (hkeeps : EachField schema data (KeepsField F schema)) :
    PathsAgree F M enc hashable topic data := by
  obtain ⟨ps, hps⟩ := exists_values (M := M) hF hevent hkeeps
  have hdata : M.jsonEntries data = some (ps.map fun p => (p.1, p.2.1)) :=
    jsonEntries_eq_some.mpr (List.forall₂_map_right_iff.mpr (hps.imp fun x p hp => ⟨hp.1, hp.2.1⟩))
  have hkeys : ps.map Prod.fst = fields.map Prod.fst := by
    rw [← hevent.keys]
    exact keys_eq (R := fun _ _ => True) (hps.imp fun x p hp => ⟨hp.1, trivial⟩)
  have hkeys' : (ps.map fun p => (p.1, p.2.1)).map Prod.fst = fields.map Prod.fst := by
    rw [List.map_map, ← hkeys]
    rfl
  have hread : (ps.map fun p => (p.1, p.2.2)).map Prod.fst = fields.map Prod.fst := by
    rw [List.map_map, ← hkeys]
    rfl
  have hfound' := hfound
  rw [← hjson _ hdata] at hfound'
  -- A value with its JSON value and with what both are read back as.
  have hvalue : ∀ k s default v, fields.lookup k = some (s, default) → data.lookup k = some v →
      ∃ p, ps.lookup k = some p ∧ Written F schema s v p.2 ∧
        Written F schema s (prepareValue (some s) p.1) p.2 := by
    intro k s default v hfield hv
    obtain ⟨p, hp, -, hwritten⟩ := forall₂_lookup
      (R := fun k v (p : Datum (Scalar O) × Datum (Scalar O)) => M.json v = some p.1 ∧
        ∀ s default, fields.lookup k = some (s, default) → Written F schema s v p.2 ∧
          Written F schema s (prepareValue (some s) p.1) p.2) hps hv
    exact ⟨p, hp, hwritten s default hfield⟩
  refine ⟨.dict (ps.map fun p => (p.1, p.2.2)), _, ?_, hdata, ?_⟩
  · refine (encodes_record_iff hfound hevent.record hevent.keys).mpr ⟨hparses, _, rfl, hread, ?_⟩
    intro k s default v w hfield hv hw
    obtain ⟨p, hp, hdirect, -⟩ := hvalue k s default v hfield hv
    rw [lookup_map ps fun _ p => p.2, hp] at hw
    cases hw
    obtain ⟨s', default', hfield', hfits⟩ := hevent.field hv
    rw [hfield] at hfield'
    cases hfield'
    rwa [prepareValue_fits hfits]
  · refine (encodes_record_iff hfound' hevent.record hkeys').mpr ⟨hparses, _, rfl, hread, ?_⟩
    intro k s default j w hfield hj hw
    obtain ⟨v, hv⟩ := Option.isSome_iff_exists.mp
      ((lookup_of_keys hevent.keys).mpr (by rw [hfield]; rfl))
    obtain ⟨p, hp, -, houtbox⟩ := hvalue k s default v hfield hv
    rw [lookup_map ps fun _ p => p.1, hp] at hj
    rw [lookup_map ps fun _ p => p.2, hp] at hw
    cases hj
    cases hw
    exact houtbox

theorem kept_of_agree (hF : Documented F schema) (hevent : EventOf schema data name fields)
    (hfound : enc.getSchema hashable topic (eventTypeOf data) = .ok schema)
    (hjson : ∀ data', M.jsonEntries data = some data' → eventTypeOf data' = eventTypeOf data)
    (hapart : EachField schema data Apart)
    (h : PathsAgree F M enc hashable topic data) :
    EachField schema data (KeepsField F schema) := by
  obtain ⟨d, data', hdirect, hdata, houtbox⟩ := h
  have hentries := jsonEntries_eq_some.mp hdata
  have hkeys : data'.map Prod.fst = fields.map Prod.fst := by
    rw [← hevent.keys]
    exact keys_eq (R := fun x y => M.json x = some y) hentries
  have hfound' := hfound
  rw [← hjson _ hdata] at hfound'
  obtain ⟨-, es, rfl, hread, hvalues⟩ :=
    (encodes_record_iff hfound hevent.record hevent.keys).mp hdirect
  obtain ⟨-, es', hsame, -, hvalues'⟩ := (encodes_record_iff hfound' hevent.record hkeys).mp houtbox
  cases hsame
  intro k s default v hfield hv
  have happart := hapart k s default v hfield hv
  rw [hevent.record] at hfield
  obtain ⟨s', default', hfield', hfits⟩ := hevent.field hv
  have hfield'' : fields.lookup k = some (s, default) := hfield
  rw [hfield''] at hfield'
  cases hfield'
  obtain ⟨j, hj, hjv⟩ := forall₂_lookup (R := fun _ x y => M.json x = some y) hentries hv
  obtain ⟨w, hw⟩ := Option.isSome_iff_exists.mp
    ((lookup_of_keys hread).mpr (by rw [hfield'']; rfl))
  have hwritten := hvalues k s default v w hfield'' hv hw
  rw [prepareValue_fits hfits] at hwritten
  exact field_of_both hF hfits happart hjv hwritten (hvalues' k s default j w hfield'' hj hw)

/-- With no dict where a record may be, the paths agree exactly when the schema is accepted and
each field has a stable value, or a `datetime` that is kept. With dicts there, these suffice. -/
theorem paths_agree_iff [DecidableEq S] {fuel : ℕ} {t : AvroType}
    (hschema : P.schemaClsToAvroSchema fuel c = some (.ok t)) (event : Event P c O)
    (hF : Documented F (schemaOf t)) (hlegal : F.parses (schemaOf t) → t.Legal)
    (hfound : enc.getSchema hashable topic (.scalar (.str event.eventType)) = .ok (schemaOf t)) :
    (F.parses (schemaOf t) ∧ EachField (schemaOf t) event.data (KeepsField F (schemaOf t)) →
      PathsAgree F M enc hashable topic event.data) ∧
    (EachField (schemaOf t) event.data Apart → PathsAgree F M enc hashable topic event.data →
      F.parses (schemaOf t) ∧ EachField (schemaOf t) event.data (KeepsField F (schemaOf t))) := by
  have htype : eventTypeOf event.data = .scalar (.str event.eventType) := by
    rw [eventTypeOf, event.typed]
    rfl
  have hjson : ∀ data', M.jsonEntries event.data = some data' →
      eventTypeOf data' = eventTypeOf event.data := by
    intro data' hdata
    rw [eventTypeOf_json event hdata, htype]
  rw [← htype] at hfound
  have hevent : F.parses (schemaOf t) →
      ∃ name fields, EventOf (schemaOf t : Schema Leaf (Scalar O)) event.data name fields := by
    intro hparses
    obtain ⟨name, fields, hrecord, hfits⟩ := fits_event hschema (hlegal hparses) event
    exact ⟨name, fields, hrecord, hfits, event.nodup⟩
  constructor
  · rintro ⟨hparses, hkeeps⟩
    obtain ⟨name, fields, hevent⟩ := hevent hparses
    exact agree_of_kept hF hevent hfound hjson hparses hkeeps
  · intro hapart hagree
    have hparses : F.parses (schemaOf t) := by
      obtain ⟨d, -, hdirect, -, -⟩ := hagree
      obtain ⟨schema, hencodable, -⟩ := encodes_iff.mp hdirect
      have hsame := hencodable.found
      rw [hfound] at hsame
      cases hsame
      exact hencodable.parses
    obtain ⟨name, fields, hevent⟩ := hevent hparses
    exact ⟨hparses, kept_of_agree hF hevent hfound hjson hapart hagree⟩

/-- What is read back of a scalar under a leaf. -/
def readBack : Leaf → Scalar Empty → Option (Scalar Empty)
  | .primitive "null", .none => some .none
  | .primitive "boolean", .bool b => some (.bool b)
  | .primitive "long", .int n => if -2 ^ 63 ≤ n ∧ n < 2 ^ 63 then some (.int n) else none
  | .primitive "double", .float x => some (.float x)
  | .primitive "double", .notFinite => some .notFinite
  | .primitive "bytes", .bytes b => some (.bytes b)
  | .primitive "string", .str s => some (.str s)
  | .enum _ symbols, .str s => if s ∈ symbols then some (.str s) else none
  | .logical "long" "timestamp-micros", .datetime t => t.utc.map .datetime
  | .logical "int" "date", .date d => some (.date d)
  | .logical "int" "date", .str s => (Date.fromisoformat s).map .date
  | .logical "long" "time-micros", .time microseconds _ => some (.time microseconds none)
  | _, _ => none

/-- The branch of a leaf that the scalar is written under. -/
def takesBranch : Datum (Scalar Empty) → Schema Leaf (Scalar Empty) → Bool
  | .scalar v, .leaf l => (readBack l v).isSome
  | _, _ => false

/-- A writer of scalars. -/
def scalarWriter : Fastavro Leaf (Scalar Empty) where
  parses _ := True
  resolve _ _ := none
  choose _ branches d := branches.find? (takesBranch d)
  write
    | .leaf l, .scalar v => (readBack l v).map .scalar
    | _, _ => none
  write_keyless := by
    intro s d d' h
    split at h
    · obtain ⟨w, -, rfl⟩ := Option.map_eq_some_iff.mp h
      exact keyless_scalar w
    · cases h

theorem validates_of_readBack {t : PlainType} {v : Scalar Empty}
    (h : (readBack (leafOf t) v).isSome) : validates t v := by
  cases t with
  | date =>
    cases v with
    | str s => simpa [readBack, leafOf, validates] using h
    | _ => trivial
  | _ => cases v <;> trivial

theorem readBack_takes {l : Leaf} {v : Scalar Empty} (h : Takes l v) : readBack l v = some v := by
  unfold Takes at h
  split at h
  · rfl
  · rfl
  · rfl
  · rfl
  · exact if_pos h
  · exact if_pos h
  · cases h

theorem type_of_readBack {t : PlainType} {v : Scalar Empty} {d : Date}
    (h : readBack (leafOf t) v = some (.date d)) : t = .date := by
  cases t with
  | date => rfl
  | _ => cases v <;> simp [readBack, leafOf] at h

theorem not_plain_readBack {t : PlainType} {v w : Scalar Empty} (hvalidates : validates t v)
    (hplain : ¬ Plain v) (h : readBack (leafOf t) v = some w) : ¬ Plain w := by
  cases v with
  | none | bool _ | int _ | float _ | str _ => exact absurd trivial hplain
  | object isDict o => exact o.elim
  | datetime u =>
    cases t with
    | datetime =>
      obtain ⟨u', -, rfl⟩ := Option.map_eq_some_iff.mp h
      exact id
    | _ => cases h
  | _ =>
    cases t <;> cases h
    exact id

theorem valid_of_takesBranch {root b : Schema Leaf (Scalar Empty)} {d : Datum (Scalar Empty)}
    (hgen : Generated b) (h : takesBranch d b) : Valid scalarWriter root b d := by
  cases hgen with
  | plain t =>
    cases d with
    | scalar v => exact Valid.plain (validates_of_readBack h)
    | _ => cases h
  | enum name symbols =>
    cases d with
    | scalar v =>
      cases v with
      | str s =>
        by_cases hmem : s ∈ symbols
        · exact Valid.enum hmem
        · simp [takesBranch, readBack, hmem] at h
      | _ => cases h
    | _ => cases h
  | _ => cases d <;> cases h

theorem scalarWriter_documented (root : Schema Leaf (Scalar Empty)) :
    Documented scalarWriter root where
  choose := by
    intro branches d s hgen h
    have hmem := List.mem_of_find?_eq_some h
    exact ⟨hmem, valid_of_takesBranch (hgen s hmem) (List.find?_some h)⟩
  resolve := by
    intro n s h
    cases h
  takes := by
    intro l v h
    have hread := readBack_takes h
    simp [scalarWriter, hread]
  string := by
    intro d e h
    cases d with
    | scalar v =>
      cases v with
      | str s => exact ⟨s, rfl⟩
      | _ => cases h
    | _ => cases h
  enum := by
    intro name symbols d e h
    cases d with
    | scalar v =>
      cases v with
      | str s =>
        by_cases hmem : s ∈ symbols
        · exact ⟨s, hmem, rfl⟩
        · simp [scalarWriter, readBack, hmem] at h
      | _ => cases h
    | _ => cases h
  long := by
    intro n e h
    obtain ⟨w, hw, -⟩ := Option.map_eq_some_iff.mp h
    exact (Option.ite_none_right_eq_some.mp hw).1
  double := rfl
  text := by
    intro t ht s
    cases t <;> first | rfl | simp at ht
  date _ := rfl
  dateText s := Option.map_map _ _ _
  dates := by
    intro t v d h
    obtain ⟨w, hw, hd⟩ := Option.map_eq_some_iff.mp h
    cases hd
    exact type_of_readBack hw
  map := by
    intro values isDict o
    exact o.elim
  record := by
    intro name fields o
    exact o.elim
  kept := by
    intro t v e hvalidates hplain h
    obtain ⟨w, hw, rfl⟩ := Option.map_eq_some_iff.mp h
    have hnot := not_plain_readBack hvalidates hplain hw
    constructor
    · rintro ⟨⟩
      exact hnot trivial
    · rintro s ⟨⟩
      exact hnot trivial
  utc := by
    intro t o ho
    exact Option.map_map _ _ _

/-- The class of an event with fields of its own. -/
def program (own : List (Field Unit Empty)) : Program Unit Empty where
  struct _ := { name := "ShopClosed", fields := baseEventFields ++ own, isEvent := true }
  enum e := e.elim
  structs := [()]
  complete _ := List.mem_singleton.mpr rfl

/-- Its schema, with the entries of these fields. -/
def shopSchema (own : List (String × AvroType × Option Default)) : AvroType :=
  .record "ShopClosed" ([("event_type", .name "string", none), ("event_id", .name "string", none),
    ("timestamp", .logical "long" "timestamp-micros", none),
    ("retry_count", .name "long", some (.int 0)),
    ("m_serializer", .name "string", some (.str "")),
    ("source", .union [.name "null", .name "string"], some .none),
    ("destination", .union [.name "null", .name "string"], some .none),
    ("user_id", .union [.name "null", .name "string"], some .none),
    ("payload", .union [.name "null", .name "bytes", .name "string", .map (.name "string")],
      some .none)] ++ own)

def shopEncoder (own : List (String × AvroType × Option Default)) : Encoder Leaf Empty :=
  ({} : Encoder Leaf Empty).registerTopicSchema "shops" (schemaOf (shopSchema own))
    (some "shop.closed")

/-- The texts of times; there are no bytes and no other objects. -/
def isoTexts : Msgspec Empty where
  base64 _ := ""
  time microseconds utcoffset := String.ofList (timeText {
    year := 1
    month := 1
    day := 1
    hour := microseconds / 3600000000
    minute := microseconds / 60000000 % 60
    second := microseconds / 1000000 % 60
    microsecond := microseconds % 1000000 } ++ utcoffset.elim [] offsetText)
  object _ o := o.elim

def noon : Datetime :=
  ⟨{ year := 2024, month := 1, day := 1, hour := 12, utcoffset := some 0 }, by decide⟩

def shopClosed : List (String × Datum (Scalar Empty)) :=
  [("event_type", text "shop.closed"), ("event_id", text "1"),
    ("timestamp", .scalar (.datetime noon)), ("retry_count", .scalar (.int 0)),
    ("m_serializer", text "shopclosed_serializer"), ("source", .scalar .none),
    ("destination", .scalar .none), ("user_id", .scalar .none), ("payload", .scalar .none)]

theorem conforms_none {members : List (FieldType Unit Empty)} (h : .plain .none ∈ members) :
    Conforms (.union members) (.scalar (.none : Scalar Empty)) :=
  Conforms.union h (Conforms.plain trivial)

theorem shopClosed_conforms :
    List.Forall₂ (fun (f : Field Unit Empty) x => x.1 = f.name ∧ Conforms f.type x.2)
      baseEventFields shopClosed := by
  have hstr (s : String) : Conforms (.plain .str : FieldType Unit Empty) (text s) :=
    Conforms.plain (t := .str) trivial
  have hnull : Conforms (.union [.plain .str, .plain .none] : FieldType Unit Empty)
      (.scalar (.none : Scalar Empty)) := conforms_none (by simp)
  exact .cons ⟨rfl, hstr _⟩ <| .cons ⟨rfl, hstr _⟩ <|
    .cons ⟨rfl, Conforms.plain (t := .datetime) trivial⟩ <|
    .cons ⟨rfl, Conforms.plain (t := .int) trivial⟩ <| .cons ⟨rfl, hstr _⟩ <|
    .cons ⟨rfl, hnull⟩ <| .cons ⟨rfl, hnull⟩ <| .cons ⟨rfl, hnull⟩ <|
    .cons ⟨rfl, conforms_none (by simp)⟩ .nil

/-- An event with no more than the fields of `BaseEvent`. -/
def baseOnly : Event (program []) () Empty where
  data := shopClosed
  conforms := by
    rw [program, List.append_nil]
    exact shopClosed_conforms
  nodup := by decide
  eventType := "shop.closed"
  typed := by simp [shopClosed, text]

theorem eachField_of_forall₂ {p : Schema Leaf (Scalar O) → Datum (Scalar O) → Prop}
    (hfields : fieldsOf schema = some fields)
    (h : List.Forall₂ (fun x y => y.1 = x.1 ∧ p y.2.1 x.2) data fields) :
    EachField schema data p := by
  intro k s default v hfield hv
  rw [hfields, Option.getD_some] at hfield
  obtain ⟨y, hy, hp⟩ := forall₂_lookup
    (R := fun _ v (y : Schema Leaf (Scalar O) × Datum (Scalar O)) => p y.1 v) h hv
  rw [hfield] at hy
  cases hy
  exact hp

theorem union_null {root : Schema Leaf (Scalar Empty)} (b : Schema Leaf (Scalar Empty))
    (branches : List (Schema Leaf (Scalar Empty))) :
    Written scalarWriter root (.union (.leaf (.primitive "null") :: b :: branches))
      (.scalar .none) (.scalar .none) :=
  written_union.mpr ⟨_, rfl, Written.flat rfl rfl⟩

theorem baseOnly_keeps : EachField (schemaOf (shopSchema [])) shopClosed
    (KeepsField scalarWriter (schemaOf (shopSchema []))) := by
  have hstr (s : String) : KeepsField scalarWriter (schemaOf (shopSchema []))
      (.leaf (.primitive "string")) (text s) := Or.inl (Stable.leaf trivial)
  have hnull (b : Schema Leaf (Scalar Empty)) (branches : List (Schema Leaf (Scalar Empty))) :
      KeepsField scalarWriter (schemaOf (shopSchema []))
        (.union (.leaf (.primitive "null") :: b :: branches)) (.scalar .none) :=
    Or.inl (Stable.union (DatesOnly.scalar trivial) (union_null b branches)
      (union_null b branches))
  have hnoon : KeptTime scalarWriter (.leaf (leafOf .datetime)) (.scalar (.datetime noon)) := by
    refine KeptTime.intro rfl ?_
    rintro o ⟨⟩
    rfl
  refine eachField_of_forall₂ rfl ?_
  exact .cons ⟨rfl, hstr _⟩ <| .cons ⟨rfl, hstr _⟩ <| .cons ⟨rfl, Or.inr hnoon⟩ <|
    .cons ⟨rfl, Or.inl (Stable.leaf (l := .primitive "long") ⟨by decide, by decide⟩)⟩ <|
    .cons ⟨rfl, hstr _⟩ <| .cons ⟨rfl, hnull _ _⟩ <| .cons ⟨rfl, hnull _ _⟩ <|
    .cons ⟨rfl, hnull _ _⟩ <| .cons ⟨rfl, hnull _ _⟩ .nil

theorem legal_of_clean {own : List (Field Unit Empty)} {t : AvroType}
    (hclean : (program own).Clean ())
    (h : (program own).schemaClsToAvroSchema 1 () = some (.ok t)) : t.Legal := by
  obtain ⟨t', ht', hlegal⟩ := schema_legal_iff (program own) (c := ()) rfl
  rw [ht' 1 le_rfl] at h
  cases h
  exact hlegal.mpr hclean

theorem baseOnly_agrees :
    PathsAgree scalarWriter isoTexts (shopEncoder []) (fun _ => true) "shops" shopClosed := by
  have hschema : (program []).schemaClsToAvroSchema 1 () = some (.ok (shopSchema [])) := rfl
  have hclean : (program []).Clean () := by
    refine ⟨_, _, rfl, ?_⟩
    decide
  exact (paths_agree_iff hschema baseOnly (scalarWriter_documented _)
    (fun _ => legal_of_clean hclean hschema) rfl).1 ⟨trivial, baseOnly_keeps⟩

/-- A field with a time of the day. -/
def atField : Field Unit Empty := { name := "at", type := .plain .time, flat := rfl }

def atEntry : String × AvroType × Option Default := ("at", .logical "long" "time-micros", none)

/-- An event with a time of the day in a field of its own. -/
def closedAt : Event (program [atField]) () Empty where
  data := shopClosed ++ [("at", .scalar (.time 64800000000 none))]
  conforms := by
    refine List.rel_append shopClosed_conforms (.cons ⟨rfl, ?_⟩ .nil)
    exact Conforms.plain (t := .time) (v := .time 64800000000 none) trivial
  nodup := by decide
  eventType := "shop.closed"
  typed := by simp [shopClosed, text]

theorem closedAt_direct : Encodes scalarWriter (shopEncoder [atEntry]) (fun _ => true) "shops"
    closedAt.data (.dict closedAt.data) := by
  have hrecord : (schemaOf (shopSchema [atEntry]) : Schema Leaf (Scalar Empty)) =
      .record "ShopClosed" _ := rfl
  have hwritten : EachField (schemaOf (shopSchema [atEntry])) closedAt.data fun s v =>
      Written scalarWriter (schemaOf (shopSchema [atEntry])) s (prepareValue (some s) v) v := by
    refine eachField_of_forall₂ rfl ?_
    exact .cons ⟨rfl, Written.flat rfl rfl⟩ <| .cons ⟨rfl, Written.flat rfl rfl⟩ <|
      .cons ⟨rfl, Written.flat rfl rfl⟩ <| .cons ⟨rfl, Written.flat rfl rfl⟩ <|
      .cons ⟨rfl, Written.flat rfl rfl⟩ <| .cons ⟨rfl, union_null _ _⟩ <|
      .cons ⟨rfl, union_null _ _⟩ <| .cons ⟨rfl, union_null _ _⟩ <|
      .cons ⟨rfl, union_null _ _⟩ <| .cons ⟨rfl, Written.flat rfl rfl⟩ .nil
  refine (encodes_record_iff rfl hrecord rfl).mpr ⟨trivial, _, rfl, rfl, ?_⟩
  intro k s default v w hfield hv hw
  rw [hv] at hw
  cases hw
  exact hwritten k s default v hfield hv

theorem closedAt_outbox {data' : List (String × Datum (Scalar Empty))}
    (hdata : isoTexts.jsonEntries closedAt.data = some data') (d : Datum (Scalar Empty)) :
    ¬ Encodes scalarWriter (shopEncoder [atEntry]) (fun _ => true) "shops" data' d := by
  intro h
  have hrecord : (schemaOf (shopSchema [atEntry]) : Schema Leaf (Scalar Empty)) =
      .record "ShopClosed" _ := rfl
  have hentries := jsonEntries_eq_some.mp hdata
  have hkeys := keys_eq (R := fun x y => isoTexts.json x = some y) hentries
  have hfound : (shopEncoder [atEntry]).getSchema (fun _ => true) "shops" (eventTypeOf data') =
      .ok (schemaOf (shopSchema [atEntry])) := by
    rw [eventTypeOf_json closedAt hdata]
    rfl
  obtain ⟨-, es, -, hread, hall⟩ := (encodes_record_iff hfound hrecord hkeys).mp h
  have hat : closedAt.data.lookup "at" = some (.scalar (.time 64800000000 none)) := by
    simp [closedAt, shopClosed, List.lookup_cons]
  obtain ⟨j, hj, hjson⟩ := forall₂_lookup (R := fun _ x y => isoTexts.json x = some y) hentries hat
  obtain ⟨w, hw⟩ := Option.isSome_iff_exists.mp
    ((lookup_of_keys (k := "at") hread).mpr (by decide))
  have hwritten := hall "at" (.leaf (.logical "long" "time-micros")) (.scalar .none) j w rfl hj hw
  cases hjson
  exact not_written_text (scalarWriter_documented _) (t := .time) (by simp) hwritten

theorem time_only_direct :
    (¬ ∀ (P : Program Unit Empty) fuel c t (event : Event P c Empty) F (M : Msgspec Empty) enc
        hashable topic, P.schemaClsToAvroSchema fuel c = some (.ok t) → t.Legal →
      Documented F (schemaOf t) → F.parses (schemaOf t) →
      enc.getSchema hashable topic (.scalar (.str event.eventType)) = .ok (schemaOf t) →
      PathsAgree F M enc hashable topic event.data) ∧
    Encodes scalarWriter (shopEncoder [atEntry]) (fun _ => true) "shops" closedAt.data
      (.dict closedAt.data) ∧
    ∀ data', isoTexts.jsonEntries closedAt.data = some data' → ∀ d,
      ¬ Encodes scalarWriter (shopEncoder [atEntry]) (fun _ => true) "shops" data' d := by
  refine ⟨?_, closedAt_direct, fun data' hdata => closedAt_outbox hdata⟩
  intro h
  have hschema : (program [atField]).schemaClsToAvroSchema 1 () =
      some (.ok (shopSchema [atEntry])) := rfl
  have hclean : (program [atField]).Clean () := by
    refine ⟨_, _, rfl, ?_⟩
    decide
  obtain ⟨d, data', -, hdata, houtbox⟩ := h _ _ _ _ closedAt scalarWriter isoTexts
    (shopEncoder [atEntry]) (fun _ => true) "shops" hschema (legal_of_clean hclean hschema)
    (scalarWriter_documented _) trivial rfl
  exact closedAt_outbox hdata d houtbox

end Taas.PublishPaths
