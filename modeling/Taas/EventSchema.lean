import Taas.AvroWalk

/-!
When the schema of an event class is a legal one. Its Structs are defined once, its references
are resolved and nullable fields have a legal default, whatever the class. The rest is up to the
annotations: whether the outline is clean.
-/
namespace Taas.AvroSchema

variable {S E : Type} {P : Program S E}

theorem nodup_of_sides {l : List (S ⊕ E)} (hleft : (l.filterMap Sum.getLeft?).Nodup)
    (hright : (l.filterMap Sum.getRight?).Nodup) : l.Nodup := by
  induction l with
  | nil => exact List.nodup_nil
  | cons k l ih =>
    cases k with
    | inl c =>
      obtain ⟨hnot, hleft⟩ := List.nodup_cons.mp hleft
      refine List.nodup_cons.mpr ⟨fun hmem => ?_, ih hleft hright⟩
      exact hnot (List.mem_filterMap.mpr ⟨.inl c, hmem, rfl⟩)
    | inr e =>
      obtain ⟨hnot, hright⟩ := List.nodup_cons.mp hright
      refine List.nodup_cons.mpr ⟨fun hmem => ?_, ih hleft hright⟩
      exact hnot (List.mem_filterMap.mpr ⟨.inr e, hmem, rfl⟩)

namespace Outline

variable {u : Outline S E} {met : List S}

theorem self_mem_parts (u : Outline S E) : u ∈ u.parts := by
  cases u <;> exact List.mem_cons_self

theorem parts_subset {w : Outline S E} (h : w ∈ u.parts) : w.parts ⊆ u.parts := by
  induction u using induct with
  | hplain t =>
    obtain rfl := List.mem_singleton.mp h
    exact List.Subset.refl _
  | henum e =>
    obtain rfl := List.mem_singleton.mp h
    exact List.Subset.refl _
  | hknown c =>
    obtain rfl := List.mem_singleton.mp h
    exact List.Subset.refl _
  | hlist item ih =>
    rcases List.mem_cons.mp h with rfl | h
    · exact List.Subset.refl _
    · exact List.subset_cons_of_subset _ (ih h)
  | hdict value ih =>
    rcases List.mem_cons.mp h with rfl | h
    · exact List.Subset.refl _
    · exact List.subset_cons_of_subset _ (ih h)
  | hstruct c fields ih =>
    rcases List.mem_cons.mp h with rfl | h
    · exact List.Subset.refl _
    · apply List.subset_cons_of_subset
      rw [fieldParts_eq] at h ⊢
      obtain ⟨x, hx, hw⟩ := List.mem_flatMap.mp h
      exact fun p hp => List.mem_flatMap.mpr ⟨x, hx, ih x hx hw hp⟩
  | hunion members ih =>
    rcases List.mem_cons.mp h with rfl | h
    · exact List.Subset.refl _
    · apply List.subset_cons_of_subset
      rw [memberParts_eq] at h ⊢
      obtain ⟨x, hx, hw⟩ := List.mem_flatMap.mp h
      exact fun p hp => List.mem_flatMap.mpr ⟨x, hx, ih x hx hw hp⟩

theorem member_mem_parts {members : List (Outline S E)} {w : Outline S E}
    (h : union members ∈ u.parts) (hw : w ∈ members) : w ∈ u.parts := by
  apply parts_subset h
  rw [parts, memberParts_eq]
  exact List.mem_cons_of_mem _ (List.mem_flatMap.mpr ⟨w, hw, self_mem_parts w⟩)

theorem field_mem_parts {c : S} {fields : List (Field S E × Outline S E)}
    {x : Field S E × Outline S E} (h : struct c fields ∈ u.parts) (hx : x ∈ fields) :
    x.2 ∈ u.parts := by
  apply parts_subset h
  rw [parts, fieldParts_eq]
  exact List.mem_cons_of_mem _ (List.mem_flatMap.mpr ⟨x, hx, self_mem_parts x.2⟩)

/-- A Struct that is referred to is defined, so its name is no primitive type. -/
theorem knownFresh_of_walked (h : Walked P [] u.parts met)
    (hfresh : ∀ k ∈ u.definitions, P.nameOf k ∉ primitives) {w : Outline S E}
    (hw : w ∈ u.parts) : w.KnownFresh P := by
  rintro c rfl
  obtain ⟨l, r, hparts⟩ := List.append_of_mem hw
  rcases h.resolved l c r hparts with hname | hname
  · simp at hname
  · obtain ⟨k, hk, heq⟩ := List.mem_map.mp hname
    have hmem : k ∈ u.definitions := by
      rw [definitions, hparts, List.filterMap_append]
      exact List.mem_append_left _ hk
    have hnot := hfresh k hmem
    rw [heq] at hnot
    exact hnot

theorem avro_eq_union {w : Outline S E} {ts : List AvroType} (h : w.avro P = .union ts) :
    ∃ members, w = union members ∧ ts = members.map (avro P) := by
  cases w with
  | union members =>
    rw [avro, avroMembers_eq] at h
    exact ⟨members, rfl, (AvroType.union.inj h).symm⟩
  | plain t => cases t <;> cases h
  | _ => cases h

theorem avro_eq_record {w : Outline S E} {n : String}
    {entries : List (String × AvroType × Option Default)} (h : w.avro P = .record n entries) :
    ∃ c fields, w = struct c fields ∧ entries = fields.map fun x =>
      (x.1.name, x.2.avro P, avroDefaultFor x.1.default (x.2.avro P)) := by
  cases w with
  | struct c fields =>
    rw [avro, avroFields_eq] at h
    exact ⟨c, fields, rfl, (AvroType.record.inj h).2.symm⟩
  | plain t => cases t <;> cases h
  | _ => cases h

theorem avro_eq_name {w : Outline S E} {s : String} (h : w.avro P = .name s) :
    s ∈ primitives ∨ ∃ c, w = known c ∧ s = P.nameOf (.inl c) := by
  cases w with
  | plain t =>
    left
    cases t <;> cases h <;> decide
  | known c => exact Or.inr ⟨c, rfl, (AvroType.name.inj h).symm⟩
  | _ => cases h

theorem referenced (h : Walked P [] u.parts met) {l r : List AvroType} {s : String}
    (hnodes : (u.avro P).nodes = l ++ .name s :: r) :
    s ∈ primitives ∨ s ∈ l.filterMap AvroType.definedName := by
  rw [nodes_avro] at hnodes
  obtain ⟨left, right, hparts, rfl, hright⟩ := List.map_eq_append_iff.mp hnodes
  obtain ⟨w, rest, rfl, hw, -⟩ := List.map_eq_cons_iff.mp hright
  rcases avro_eq_name hw with hprimitive | ⟨c, rfl, rfl⟩
  · exact Or.inl hprimitive
  · right
    rcases h.resolved left c rest hparts with hname | hname
    · simp at hname
    · rw [List.map_filterMap] at hname
      rw [List.filterMap_map]
      rw [← List.filterMap_congr fun w _ => definedName_avro w] at hname
      exact hname

theorem unions_legal_iff (h : Walked P [] u.parts met)
    (hknown : ∀ w ∈ u.parts, w.KnownFresh P) :
    (∀ ts, .union ts ∈ (u.avro P).nodes →
      (∀ t ∈ ts, t.isUnion = false) ∧ (ts.filterMap AvroType.unnamedType).Nodup) ↔
    ∀ w ∈ u.parts, w.membersDiffer := by
  have htypes : ∀ members, union members ∈ u.parts →
      (members.map (avro P)).filterMap AvroType.unnamedType = members.filterMap unnamedType := by
    intro members hmem
    rw [List.filterMap_map]
    exact List.filterMap_congr fun w hw => unnamedType_avro (hknown w (member_mem_parts hmem hw))
  rw [nodes_avro]
  constructor
  · intro hlegal w hw
    cases w with
    | union members =>
      have hmem : (union members).avro P ∈ u.parts.map (avro P) := List.mem_map_of_mem hw
      rw [avro, avroMembers_eq] at hmem
      have hnodup := (hlegal _ hmem).2
      rw [htypes members hw] at hnodup
      exact decide_eq_true hnodup
    | _ => rfl
  · intro hclean ts hts
    obtain ⟨w, hw, heq⟩ := List.mem_map.mp hts
    obtain ⟨members, rfl, rfl⟩ := avro_eq_union heq
    rw [htypes members hw]
    refine ⟨fun t ht => ?_, of_decide_eq_true (hclean _ hw)⟩
    obtain ⟨w', hw', rfl⟩ := List.mem_map.mp ht
    rw [isUnion_avro]
    exact h.flat members hw w' hw'

theorem defaults_legal_iff (hknown : ∀ w ∈ u.parts, w.KnownFresh P) :
    (∀ n entries, .record n entries ∈ (u.avro P).nodes →
      ∀ x ∈ entries, ∀ v ∈ x.2.2, x.2.1.admits v) ↔
    ∀ w ∈ u.parts, w.defaultsFit P := by
  have hfield : ∀ c fields, struct c fields ∈ u.parts → ∀ x ∈ fields,
      ((∀ v ∈ avroDefaultFor x.1.default (x.2.avro P), (x.2.avro P).admits v) ↔
        x.1.defaultFits P x.2) := by
    intro c fields hmem x hx
    have hx' := field_mem_parts hmem hx
    apply default_admitted_iff (hknown x.2 hx')
    intro w members heq
    apply hknown w
    rw [heq] at hx'
    exact member_mem_parts hx' List.mem_cons_self
  rw [nodes_avro]
  constructor
  · intro hlegal w hw
    cases w with
    | struct c fields =>
      apply List.all_eq_true.mpr
      intro x hx
      apply (hfield c fields hw x hx).mp
      have hrecord : (struct c fields).avro P ∈ u.parts.map (avro P) := List.mem_map_of_mem hw
      rw [avro, avroFields_eq] at hrecord
      exact hlegal _ _ hrecord _ (List.mem_map.mpr ⟨x, hx, rfl⟩)
    | _ => rfl
  · intro hclean n entries hrecord entry hentry
    obtain ⟨w, hw, heq⟩ := List.mem_map.mp hrecord
    obtain ⟨c, fields, rfl, rfl⟩ := avro_eq_record heq
    obtain ⟨x, hx, rfl⟩ := List.mem_map.mp hentry
    exact (hfield c fields hw x hx).mpr (List.all_eq_true.mp (hclean _ hw) x hx)

/-- The schema of a walked outline is legal exactly when the outline is clean. -/
theorem legal_iff_clean (h : Walked P [] u.parts met) : (u.avro P).Legal ↔ u.Clean P := by
  obtain ⟨new, -, hnodup, -, hsub⟩ := h.grows
  have hstructs : (u.definitions.filterMap Sum.getLeft?).Nodup := hnodup.sublist hsub
  have hnames := definitions_avro (P := P) u
  constructor
  · intro hlegal
    have hfresh : ∀ k ∈ u.definitions, P.nameOf k ∉ primitives := by
      intro k hk
      apply hlegal.fresh
      rw [hnames]
      exact List.mem_map_of_mem hk
    have hknown := fun w hw => knownFresh_of_walked (w := w) h hfresh hw
    have hdefined := hlegal.defined
    rw [hnames] at hdefined
    constructor
    · apply List.Nodup.filterMap ?_ (List.Nodup.of_map P.nameOf hdefined)
      intro k k' e hk hk'
      rw [Option.mem_def, Sum.getRight?_eq_some_iff] at hk hk'
      rw [hk, hk']
    · exact fun k hk k' hk' => List.inj_on_of_nodup_map hdefined hk hk'
    · exact hfresh
    · exact (unions_legal_iff h hknown).mp hlegal.unions
    · exact (defaults_legal_iff hknown).mp hlegal.defaults
  · intro hclean
    have hknown := fun w hw => knownFresh_of_walked (w := w) h hclean.fresh hw
    constructor
    · rw [hnames]
      exact List.Nodup.map_on hclean.names (nodup_of_sides hstructs hclean.enums)
    · rw [hnames]
      intro n hn
      obtain ⟨k, hk, rfl⟩ := List.mem_map.mp hn
      exact hclean.fresh k hk
    · exact fun l s r => referenced h
    · exact (unions_legal_iff h hknown).mpr hclean.unions
    · exact (defaults_legal_iff hknown).mpr hclean.defaults

end Outline

namespace Program

variable [DecidableEq S]

/-- The outline of the class is clean. -/
def Clean (P : Program S E) (c : S) : Prop :=
  ∃ u met, P.outlineStruct P.structs.length c [] = some (u, met) ∧ u.Clean P

theorem clean_iff {c : S} {u : Outline S E} {met : List S}
    (hu : P.outlineStruct P.structs.length c [] = some (u, met)) : P.Clean c ↔ u.Clean P := by
  constructor
  · rintro ⟨u', met', hu', hclean⟩
    obtain ⟨rfl, rfl⟩ := Prod.mk.inj (Option.some.inj (hu.symm.trans hu'))
    exact hclean
  · exact fun hclean => ⟨u, met, hu, hclean⟩

end Program

/-- The schema of every event class is found, and it is legal exactly when the class is clean. -/
theorem schema_legal_iff [DecidableEq S] (P : Program S E) {c : S}
    (hevent : (P.struct c).isEvent = true) :
    ∃ schema, (∀ fuel, P.structs.length ≤ fuel →
        P.schemaClsToAvroSchema fuel c = some (.ok schema)) ∧
      (schema.Legal ↔ P.Clean c) := by
  have hbudget : P.remaining [] ≤ P.structs.length := List.length_filter_le _ _
  obtain ⟨u, met, hu, -⟩ :=
    Program.outlineStruct_succeeds P.structs.length List.not_mem_nil hbudget
  refine ⟨u.avro P, fun fuel hfuel => ?_, ?_⟩
  · have hmore := Program.outlineStruct_mono hfuel hu
    rw [Program.schemaClsToAvroSchema, if_pos hevent, Program.recordSchema_eq, hmore]
    rfl
  · have hwalked := Program.outlineStruct_walked List.not_mem_nil hu
    rw [Outline.legal_iff_clean hwalked, Program.clean_iff hu]

def baseEventFields : List (Field S E) :=
  [{ name := "event_type", type := .plain .str, flat := rfl },
    { name := "event_id", type := .plain .str, flat := rfl },
    { name := "timestamp", type := .plain .datetime, flat := rfl },
    { name := "retry_count", type := .plain .int, default := some (.int 0), flat := rfl },
    { name := "m_serializer", type := .plain .str, default := some (.str ""), flat := rfl },
    { name := "source", type := .union [.plain .str, .plain .none], default := some .none,
      flat := rfl },
    { name := "destination", type := .union [.plain .str, .plain .none], default := some .none,
      flat := rfl },
    { name := "user_id", type := .union [.plain .str, .plain .none], default := some .none,
      flat := rfl },
    { name := "payload", type := .union [.plain .bytes, .plain .str, .bareDict, .plain .none],
      default := some .none, flat := rfl }]

inductive OrderClass
  | orderPlaced
  | item
  deriving DecidableEq

def orderClasses : List OrderClass := [.orderPlaced, .item]

theorem mem_orderClasses (c : OrderClass) : c ∈ orderClasses := by
  cases c <;> decide

/-- An event with an Enum and a Struct that is repeated and contains itself. -/
def orders : Program OrderClass Unit where
  struct
    | .orderPlaced =>
      { name := "OrderPlaced"
        fields := baseEventFields ++
          [{ name := "side", type := .enum (), flat := rfl },
            { name := "item", type := .struct .item, flat := rfl },
            { name := "gifts", type := .list (.struct .item), flat := rfl }]
        isEvent := true }
    | .item =>
      { name := "Item"
        fields := [{ name := "price", type := .plain .decimal, flat := rfl },
          { name := "parts", type := .list (.struct .item), flat := rfl }] }
  enum _ := { name := "Side", symbols := ["BUY", "SELL"] }
  structs := orderClasses
  complete := mem_orderClasses

theorem orderPlaced_clean : orders.Clean .orderPlaced := by
  refine ⟨_, _, rfl, ?_⟩
  decide

theorem orderPlaced_schema_legal :
    ∃ schema, (∀ fuel, 2 ≤ fuel →
        orders.schemaClsToAvroSchema fuel .orderPlaced = some (.ok schema)) ∧
      schema.Legal := by
  obtain ⟨schema, hschema, hlegal⟩ := schema_legal_iff orders (c := .orderPlaced) rfl
  exact ⟨schema, hschema, hlegal.mpr orderPlaced_clean⟩

inductive FaultyClass
  | orderMoved
  | orderSeen
  | orderRated
  deriving DecidableEq

def faultyClasses : List FaultyClass := [.orderMoved, .orderSeen, .orderRated]

theorem mem_faultyClasses (c : FaultyClass) : c ∈ faultyClasses := by
  cases c <;> decide

/-- Events with an Enum in two fields, with `datetime | int`, and with `int | str = 'none'`. -/
def faulty : Program FaultyClass Unit where
  struct
    | .orderMoved =>
      { name := "OrderMoved"
        fields := baseEventFields ++
          [{ name := "before", type := .enum (), flat := rfl },
            { name := "after", type := .enum (), flat := rfl }]
        isEvent := true }
    | .orderSeen =>
      { name := "OrderSeen"
        fields := baseEventFields ++
          [{ name := "at", type := .union [.plain .datetime, .plain .int], flat := rfl }]
        isEvent := true }
    | .orderRated =>
      { name := "OrderRated"
        fields := baseEventFields ++
          [{ name := "rating", type := .union [.plain .int, .plain .str],
             default := some (.str "none"), flat := rfl }]
        isEvent := true }
  enum _ := { name := "Side", symbols := ["BUY", "SELL"] }
  structs := faultyClasses
  complete := mem_faultyClasses

theorem faulty_outlines (c : FaultyClass) :
    ∃ u met, faulty.outlineStruct 3 c [] = some (u, met) ∧ ¬ u.Clean faulty := by
  cases c
  all_goals exact ⟨_, _, rfl, by decide⟩

/-- The Enum is defined in both fields, and none of the schemas is legal. -/
theorem faulty_schemas_illegal :
    (∃ schema, faulty.schemaClsToAvroSchema 3 .orderMoved = some (.ok schema) ∧
      schema.definitions = ["OrderMoved", "Side", "Side"]) ∧
    ∀ c, (faulty.struct c).isEvent = true ∧
      ∃ schema, faulty.schemaClsToAvroSchema 3 c = some (.ok schema) ∧ ¬ schema.Legal := by
  refine ⟨⟨_, rfl, by decide⟩, fun c => ?_⟩
  have hevent : (faulty.struct c).isEvent = true := by cases c <;> rfl
  obtain ⟨u, met, hu, hnot⟩ := faulty_outlines c
  refine ⟨hevent, u.avro faulty, ?_, fun hlegal => ?_⟩
  · rw [Program.schemaClsToAvroSchema, if_pos hevent, Program.recordSchema_eq, hu]
    rfl
  · have hwalked := Program.outlineStruct_walked List.not_mem_nil hu
    exact hnot ((Outline.legal_iff_clean hwalked).mp hlegal)

end Taas.AvroSchema
