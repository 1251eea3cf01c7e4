import Taas.AvroWriter
import Taas.EventSchema

/-!
The values of the fields of an event: those that msgspec decodes for the annotation, and what that
says about them under the schema that the annotation is mapped to.
-/
namespace Taas.EventValues

open AvroData AvroSchema MapAccum SchemaRegistryEncoder AvroWriter

variable {S E O : Type}

/-- The scalars of a type. -/
def holds : PlainType → Scalar O → Prop
  | .bool, .bool _ | .int, .int _ | .float, .float _ | .float, .notFinite | .str, .str _
  | .bytes, .bytes _ | .none, .none | .datetime, .datetime _ | .date, .date _ | .time, .time _ _
  | .decimal, .object false _ | .uuid, .object false _ => True
  | _, _ => False

/-- The values of an annotation. A Struct and a member of an Enum that is no string and no integer
are objects. The keys of a dict differ. -/
inductive Conforms : FieldType S E → Datum (Scalar O) → Prop
  | plain {t : PlainType} {v : Scalar O} : holds t v → Conforms (.plain t) (.scalar v)
  | other (d : Datum (Scalar O)) : Conforms (.plain .other) d
  | list {item : FieldType S E} (b : Bool) {xs : List (Datum (Scalar O))} :
      (∀ x ∈ xs, Conforms item x) → Conforms (.list item) (.list b xs)
  | bareList (b : Bool) (xs : List (Datum (Scalar O))) : Conforms .bareList (.list b xs)
  | dict {value : FieldType S E} {es : List (String × Datum (Scalar O))} :
      (es.map Prod.fst).Nodup → (∀ x ∈ es, Conforms value x.2) → Conforms (.dict value) (.dict es)
  | keyed (value : FieldType S E) (o : O) : Conforms (.dict value) (.scalar (.object true o))
  | bareDict {es : List (String × Datum (Scalar O))} :
      (es.map Prod.fst).Nodup → Conforms .bareDict (.dict es)
  | bareKeyed (o : O) : Conforms .bareDict (.scalar (.object true o))
  | struct (c : S) (o : O) : Conforms (.struct c) (.scalar (.object false o))
  | strEnum (e : E) (s : String) : Conforms (.enum e) (.scalar (.str s))
  | intEnum (e : E) (n : ℤ) : Conforms (.enum e) (.scalar (.int n))
  | enum (e : E) (o : O) : Conforms (.enum e) (.scalar (.object false o))
  | union {members : List (FieldType S E)} {a : FieldType S E} {d : Datum (Scalar O)} :
      a ∈ members → Conforms a d → Conforms (.union members) d

/-- What a value of an annotation is under its schema. In a union it may be any. -/
inductive Fits : Schema Leaf (Scalar O) → Datum (Scalar O) → Prop
  | plain {t : PlainType} {v : Scalar O} : holds t v → Fits (.leaf (leafOf t)) (.scalar v)
  | string (d : Datum (Scalar O)) : Fits (.leaf (.primitive "string")) d
  | enum (name : String) (symbols : List String) (v : Scalar O) :
      Fits (.leaf (.enum name symbols)) (.scalar v)
  | array {items : Schema Leaf (Scalar O)} (b : Bool) {xs : List (Datum (Scalar O))} :
      (∀ x ∈ xs, Fits items x) → Fits (.array items) (.list b xs)
  | map {values : Schema Leaf (Scalar O)} {es : List (String × Datum (Scalar O))} :
      (es.map Prod.fst).Nodup → (∀ x ∈ es, Fits values x.2) → Fits (.map values) (.dict es)
  | keyed (values : Schema Leaf (Scalar O)) (o : O) :
      Fits (.map values) (.scalar (.object true o))
  | record (name : String) (fields : List (String × Schema Leaf (Scalar O) × Datum (Scalar O)))
      (o : O) : Fits (.record name fields) (.scalar (.object false o))
  | reference (name : String) (o : O) : Fits (.reference name) (.scalar (.object false o))
  | union {branches : List (Schema Leaf (Scalar O))} (d : Datum (Scalar O)) :
      (∀ s ∈ branches, Generated s) → Fits (.union branches) d

theorem exists_same {ts ts' : List AvroType} (h : AvroType.sameBranches ts ts') {t' : AvroType}
    (ht' : t' ∈ ts') : ∃ t ∈ ts, t.same t' := by
  induction ts generalizing ts' with
  | nil =>
    cases ts' with
    | nil => cases ht'
    | cons _ _ => cases h
  | cons t ts ih =>
    cases ts' with
    | nil => cases ht'
    | cons w ts' =>
      simp only [AvroType.sameBranches, Bool.and_eq_true] at h
      rcases List.mem_cons.mp ht' with rfl | ht'
      · exact ⟨t, List.mem_cons_self, h.1⟩
      · obtain ⟨u, hu, hsame⟩ := ih h.2 ht'
        exact ⟨u, List.mem_cons_of_mem t hu, hsame⟩

/-- Schemas that are equal for Python differ in defaults of records only, which no value sees. -/
theorem covers_same {t t' : AvroType} (h : t.same t')
    (hgen : Generated (schemaOf t : Schema Leaf (Scalar O))) :
    Generated (schemaOf t' : Schema Leaf (Scalar O)) ∧
      ∀ d : Datum (Scalar O), Fits (schemaOf t) d → Fits (schemaOf t') d := by
  induction t using AvroType.induct generalizing t' with
  | hname s =>
    cases t' with
    | name s' =>
      obtain rfl : s = s' := of_decide_eq_true h
      exact ⟨hgen, fun d hd => hd⟩
    | _ => cases h
  | hlogical t l =>
    cases t' with
    | logical t' l' =>
      simp only [AvroType.same, Bool.and_eq_true, decide_eq_true_eq] at h
      obtain ⟨rfl, rfl⟩ := h
      exact ⟨hgen, fun d hd => hd⟩
    | _ => cases h
  | harray t ih =>
    cases t' with
    | array t' =>
      have hitems : t.same t' := h
      rw [schemaOf] at hgen ⊢
      rw [schemaOf]
      cases hgen with
      | array hgen =>
        obtain ⟨hgen', hfits⟩ := ih hitems hgen
        refine ⟨Generated.array hgen', fun d hd => ?_⟩
        cases hd with
        | array b hall => exact Fits.array b fun x hx => hfits x (hall x hx)
    | _ => cases h
  | hmap t ih =>
    cases t' with
    | map t' =>
      have hvalues : t.same t' := h
      rw [schemaOf] at hgen ⊢
      rw [schemaOf]
      cases hgen with
      | map hgen =>
        obtain ⟨hgen', hfits⟩ := ih hvalues hgen
        refine ⟨Generated.map hgen', fun d hd => ?_⟩
        cases hd with
        | map hnodup hall => exact Fits.map hnodup fun x hx => hfits x.2 (hall x hx)
        | keyed _ o => exact Fits.keyed _ o
    | _ => cases h
  | henum n symbols =>
    cases t' with
    | enum n' symbols' =>
      simp only [AvroType.same, Bool.and_eq_true, decide_eq_true_eq] at h
      obtain ⟨rfl, rfl⟩ := h
      exact ⟨hgen, fun d hd => hd⟩
    | _ => cases h
  | hrecord n fields ih =>
    cases t' with
    | record n' fields' =>
      rw [schemaOf] at hgen ⊢
      rw [schemaOf]
      refine ⟨Generated.record n' _, fun d hd => ?_⟩
      cases hd with
      | record _ _ o => exact Fits.record n' _ o
    | _ => cases h
  | hunion ts ih =>
    cases t' with
    | union ts' =>
      have hbranches : AvroType.sameBranches ts ts' := h
      rw [schemaOf, branchSchemas_eq] at hgen ⊢
      rw [schemaOf, branchSchemas_eq]
      cases hgen with
      | union hgen =>
        have hgen' : ∀ s ∈ ts'.map schemaOf, Generated (s : Schema Leaf (Scalar O)) := by
          intro s hs
          obtain ⟨t', ht', rfl⟩ := List.mem_map.mp hs
          obtain ⟨t, ht, hsame⟩ := exists_same hbranches ht'
          exact (ih t ht hsame (hgen _ (List.mem_map_of_mem ht))).1
        exact ⟨Generated.union hgen', fun d _ => Fits.union d hgen'⟩
    | _ => cases h

theorem addBranch_subset (branches : List AvroType) (t : AvroType) :
    branches ⊆ addBranch branches t := by
  unfold addBranch
  split
  · exact List.Subset.refl _
  · exact List.subset_append_left _ _

theorem mem_addBranch {branches : List AvroType} {t b : AvroType} (h : b ∈ addBranch branches t) :
    b ∈ branches ∨ b = t := by
  unfold addBranch at h
  split at h
  · exact Or.inl h
  · exact (List.mem_append.mp h).imp_right List.mem_singleton.mp

theorem exists_addBranch (branches : List AvroType) (t : AvroType) :
    ∃ b ∈ addBranch branches t, t = b ∨ t.same b := by
  unfold addBranch
  split
  · rename_i hany
    obtain ⟨b, hb, hsame⟩ := List.any_eq_true.mp hany
    exact ⟨b, hb, Or.inr hsame⟩
  · exact ⟨t, List.mem_append_right _ List.mem_cons_self, Or.inl rfl⟩

theorem foldl_addBranch_subset (ts branches : List AvroType) :
    branches ⊆ ts.foldl addBranch branches := by
  induction ts generalizing branches with
  | nil => exact List.Subset.refl _
  | cons t ts ih => exact List.Subset.trans (addBranch_subset branches t) (ih _)

theorem mem_foldl_addBranch {ts branches : List AvroType} {b : AvroType}
    (h : b ∈ ts.foldl addBranch branches) : b ∈ branches ∨ b ∈ ts := by
  induction ts generalizing branches with
  | nil => exact Or.inl h
  | cons t ts ih =>
    rcases ih h with hb | hb
    · rcases mem_addBranch hb with hb | rfl
      · exact Or.inl hb
      · exact Or.inr List.mem_cons_self
    · exact Or.inr (List.mem_cons_of_mem t hb)

theorem exists_foldl_addBranch {ts : List AvroType} (branches : List AvroType) {t : AvroType}
    (h : t ∈ ts) : ∃ b ∈ ts.foldl addBranch branches, t = b ∨ t.same b := by
  induction ts generalizing branches with
  | nil => cases h
  | cons w ts ih =>
    rcases List.mem_cons.mp h with rfl | h
    · obtain ⟨b, hb, hsame⟩ := exists_addBranch branches t
      exact ⟨b, foldl_addBranch_subset ts _ hb, hsame⟩
    · exact ih _ h

/-- The schema is one of an annotation, whose values fit it. -/
structure Covers (a : FieldType S E) (s : Schema Leaf (Scalar O)) : Prop where
  generated : Generated s
  fits : ∀ d, Conforms a d → Fits s d

theorem covers_plain (t : PlainType) :
    Covers (S := S) (E := E) (.plain t) (.leaf (leafOf t) : Schema Leaf (Scalar O)) where
  generated := Generated.plain t
  fits d h := by
    cases h with
    | plain hholds => exact Fits.plain hholds
    | other d => exact Fits.string d

theorem covers_same' {a : FieldType S E} {t b : AvroType} (hsame : t = b ∨ t.same b)
    (h : Covers a (schemaOf t : Schema Leaf (Scalar O))) :
    Covers a (schemaOf b : Schema Leaf (Scalar O)) := by
  rcases hsame with rfl | hsame
  · exact h
  · obtain ⟨hgen, hfits⟩ := covers_same hsame h.generated
    exact ⟨hgen, fun d hd => hfits d (h.fits d hd)⟩

theorem isNone_iff {a : FieldType S E} : a.isNone = true ↔ a = .plain .none := by
  cases a with
  | plain t => cases t <;> simp [FieldType.isNone]
  | _ => simp [FieldType.isNone]

theorem covers_branches {members : List (FieldType S E)} {ts : List AvroType}
    (h : List.Forall₂ (fun a t => Covers a (schemaOf t : Schema Leaf (Scalar O)))
      (members.filter fun a => !a.isNone) ts) :
    (∀ a ∈ members, ∃ b ∈ ts.foldl addBranch (nullFirst members),
      Covers a (schemaOf b : Schema Leaf (Scalar O))) ∧
    ∀ b ∈ ts.foldl addBranch (nullFirst members),
      Generated (schemaOf b : Schema Leaf (Scalar O)) := by
  constructor
  · intro a ha
    cases hnone : a.isNone with
    | true =>
      have hfirst : nullFirst members = [.name "null"] := by
        rw [nullFirst, if_pos (List.any_eq_true.mpr ⟨a, ha, hnone⟩)]
      refine ⟨.name "null", foldl_addBranch_subset ts _ ?_, ?_⟩
      · rw [hfirst]
        exact List.mem_cons_self
      · rw [isNone_iff.mp hnone]
        exact covers_plain .none
    | false =>
      have hmem : a ∈ members.filter fun a => !a.isNone := List.mem_filter.mpr ⟨ha, by simp [hnone]⟩
      obtain ⟨t, ht, hcovers⟩ := forall₂_mem_left h hmem
      obtain ⟨b, hb, hsame⟩ := exists_foldl_addBranch (nullFirst members) ht
      exact ⟨b, hb, covers_same' hsame hcovers⟩
  · intro b hb
    rcases mem_foldl_addBranch hb with hb | hb
    · unfold nullFirst at hb
      split at hb
      · obtain rfl := List.mem_singleton.mp hb
        exact Generated.plain .none
      · cases hb
    · obtain ⟨a, -, hcovers⟩ := forall₂_mem_right h hb
      exact hcovers.generated

theorem covers_union {members : List (FieldType S E)} {ts : List AvroType}
    (h : List.Forall₂ (fun a t => Covers a (schemaOf t : Schema Leaf (Scalar O)))
      (members.filter fun a => !a.isNone) ts) :
    Covers (.union members)
      (schemaOf (unionOf (ts.foldl addBranch (nullFirst members))) : Schema Leaf (Scalar O)) := by
  obtain ⟨hmembers, hgen⟩ := covers_branches h
  match hbranches : ts.foldl addBranch (nullFirst members) with
  | [] => exact ⟨Generated.plain .str, fun d _ => Fits.string d⟩
  | [b] =>
    rw [hbranches] at hmembers hgen
    refine ⟨hgen b List.mem_cons_self, ?_⟩
    intro d hd
    cases hd with
    | union ha hconforms =>
      obtain ⟨b', hb', hcovers⟩ := hmembers _ ha
      obtain rfl := List.mem_singleton.mp hb'
      exact hcovers.fits d hconforms
  | b :: b' :: branches =>
    rw [hbranches] at hgen
    have hunion : unionOf (b :: b' :: branches) = .union (b :: b' :: branches) := rfl
    rw [hunion, schemaOf, branchSchemas_eq]
    have hall : ∀ s ∈ (b :: b' :: branches).map schemaOf,
        Generated (s : Schema Leaf (Scalar O)) := by
      intro s hs
      obtain ⟨t, ht, rfl⟩ := List.mem_map.mp hs
      exact hgen t ht
    exact ⟨Generated.union hall, fun d _ => Fits.union d hall⟩

theorem covers_avroTypeFor [DecidableEq S] (P : Program S E)
    {recordSchema : S → List S → Option (AvroType × List S)}
    (hrecord : ∀ c met r, recordSchema c met = some r →
      (∃ n fields, r.1 = .record n fields) ∧ met ⊆ r.2)
    (a : FieldType S E) {met : List S} {r : AvroType × List S}
    (hr : P.avroTypeFor recordSchema a met = some r) :
    met ⊆ r.2 ∧ ((∀ c ∈ r.2, (P.struct c).name ∉ primitives) →
      Covers a (schemaOf r.1 : Schema Leaf (Scalar O))) := by
  induction a using FieldType.induct generalizing met r with
  | hplain t =>
    obtain rfl := Option.some.inj hr
    refine ⟨List.Subset.refl _, fun _ => ?_⟩
    rw [schemaOf_plain]
    exact covers_plain t
  | hbareList =>
    obtain rfl := Option.some.inj hr
    refine ⟨List.Subset.refl _, fun _ => ⟨Generated.array (Generated.plain .str), ?_⟩⟩
    intro d hd
    cases hd with
    | bareList b xs => exact Fits.array b fun x _ => Fits.string x
  | hbareDict =>
    obtain rfl := Option.some.inj hr
    refine ⟨List.Subset.refl _, fun _ => ⟨Generated.map (Generated.plain .str), ?_⟩⟩
    intro d hd
    cases hd with
    | bareDict hnodup => exact Fits.map hnodup fun x _ => Fits.string x.2
    | bareKeyed o => exact Fits.keyed _ o
  | henum e =>
    obtain rfl := Option.some.inj hr
    refine ⟨List.Subset.refl _, fun _ => ⟨Generated.enum _ _, ?_⟩⟩
    intro d hd
    cases hd with
    | strEnum _ s => exact Fits.enum _ _ (.str s)
    | intEnum _ n => exact Fits.enum _ _ (.int n)
    | enum _ o => exact Fits.enum _ _ (.object false o)
  | hlist item ih =>
    rw [Program.avroTypeFor] at hr
    obtain ⟨x, hx, hr⟩ := Option.bind_eq_some_iff.mp hr
    obtain rfl := Option.some.inj hr
    obtain ⟨hsub, hcovers⟩ := ih hx
    refine ⟨hsub, fun hfresh => ?_⟩
    obtain ⟨hgen, hfits⟩ := hcovers hfresh
    refine ⟨Generated.array hgen, ?_⟩
    intro d hd
    cases hd with
    | list b hall => exact Fits.array b fun y hy => hfits y (hall y hy)
  | hdict value ih =>
    rw [Program.avroTypeFor] at hr
    obtain ⟨x, hx, hr⟩ := Option.bind_eq_some_iff.mp hr
    obtain rfl := Option.some.inj hr
    obtain ⟨hsub, hcovers⟩ := ih hx
    refine ⟨hsub, fun hfresh => ?_⟩
    obtain ⟨hgen, hfits⟩ := hcovers hfresh
    refine ⟨Generated.map hgen, ?_⟩
    intro d hd
    cases hd with
    | dict hnodup hall => exact Fits.map hnodup fun y hy => hfits y.2 (hall y hy)
    | keyed _ o => exact Fits.keyed _ o
  | hstruct c =>
    rw [Program.avroTypeFor] at hr
    split at hr
    · rename_i hc
      obtain rfl := Option.some.inj hr
      refine ⟨List.Subset.refl _, fun hfresh => ?_⟩
      rw [schemaOf, if_neg (hfresh c hc)]
      refine ⟨Generated.reference _, ?_⟩
      intro d hd
      cases hd with
      | struct _ o => exact Fits.reference _ o
    · obtain ⟨⟨n, fields, hfields⟩, hsub⟩ := hrecord c met r hr
      refine ⟨hsub, fun _ => ?_⟩
      rw [hfields, schemaOf]
      refine ⟨Generated.record n _, ?_⟩
      intro d hd
      cases hd with
      | struct _ o => exact Fits.record n _ o
  | hunion members ih =>
    rw [Program.avroTypeFor, Program.unionBranches_eq] at hr
    obtain ⟨x, hx, hr⟩ := Option.bind_eq_some_iff.mp hr
    obtain ⟨y, hy, rfl⟩ := Option.map_eq_some_iff.mp hx
    obtain rfl := Option.some.inj hr
    have hgrow : ∀ a ∈ members.filter fun a => !a.isNone, ∀ s t s',
        P.avroTypeFor recordSchema a s = some (t, s') → s ⊆ s' := by
      intro a ha s t s' ht
      exact (ih a (List.mem_of_mem_filter ha) ht).1
    obtain ⟨hsub, hall⟩ := mapAccum_forall₂ List.Subset.refl
      (fun _ _ _ => List.Subset.trans) hgrow hy
    refine ⟨hsub, fun hfresh => covers_union ?_⟩
    obtain ⟨hlength, hturns⟩ := forall₂_iff_getElem?.mp hall
    refine forall₂_iff_getElem?.mpr ⟨hlength, ?_⟩
    intro i a t ha ht
    obtain ⟨s, s', hturn, hle⟩ := hturns i a t ha ht
    have hmem := List.mem_of_mem_filter (List.mem_of_getElem? ha)
    exact (ih a hmem hturn).2 fun c hc => hfresh c (hle hc)

variable [DecidableEq S] {P : Program S E}

theorem fieldEntry_eq_some {recordSchema : S → List S → Option (AvroType × List S)}
    {f : Field S E} {met met' : List S} {x : String × AvroType × Option Default}
    (h : P.fieldEntry recordSchema f met = some (x, met')) :
    x.1 = f.name ∧ P.avroTypeFor recordSchema f.type met = some (x.2.1, met') := by
  obtain ⟨y, hy, h⟩ := Option.bind_eq_some_iff.mp h
  obtain ⟨rfl, rfl⟩ := Prod.mk.inj (Option.some.inj h)
  exact ⟨rfl, hy⟩

theorem fieldEntry_grows {recordSchema : S → List S → Option (AvroType × List S)}
    (hrecord : ∀ c met r, recordSchema c met = some r →
      (∃ n fields, r.1 = .record n fields) ∧ met ⊆ r.2)
    {f : Field S E} {met met' : List S} {x : String × AvroType × Option Default}
    (h : P.fieldEntry recordSchema f met = some (x, met')) : met ⊆ met' :=
  (covers_avroTypeFor (O := Empty) P hrecord f.type (fieldEntry_eq_some h).2).1

theorem recordSchema_grows {fuel : ℕ} {c : S} {met : List S} {r : AvroType × List S}
    (h : P.recordSchema fuel c met = some r) :
    (∃ n fields, r.1 = .record n fields) ∧ met ⊆ r.2 := by
  induction fuel generalizing c met r with
  | zero => cases h
  | succ fuel ih =>
    obtain ⟨x, hx, h⟩ := Option.bind_eq_some_iff.mp h
    obtain rfl := Option.some.inj h
    have hsub := (mapAccum_forall₂ List.Subset.refl (fun _ _ _ => List.Subset.trans)
      (fun _ _ _ _ _ => fieldEntry_grows fun _ _ _ => ih) hx).1
    exact ⟨⟨_, _, rfl⟩, List.Subset.trans (List.subset_append_left _ _) hsub⟩

/-- The Structs of a legal schema have the names of no primitive types. -/
theorem fresh_of_legal {fuel : ℕ} {c : S} {r : AvroType × List S}
    (h : P.recordSchema fuel c [] = some r) (hlegal : r.1.Legal) :
    ∀ c' ∈ r.2, (P.struct c').name ∉ primitives := by
  rw [Program.recordSchema_eq] at h
  obtain ⟨⟨u, met⟩, hu, rfl⟩ := Option.map_eq_some_iff.mp h
  have hwalked := Program.outlineStruct_walked List.not_mem_nil hu
  intro c' hc'
  rcases hwalked.defined c' hc' with hname | hname
  · cases hname
  · apply hlegal.fresh
    rw [Outline.definitions_avro]
    exact hname

/-- The fields of a legal schema are those of the class, and cover their annotations. -/
theorem covers_fields {fuel : ℕ} {c : S} {t : AvroType}
    (h : P.schemaClsToAvroSchema fuel c = some (.ok t)) (hlegal : t.Legal) :
    ∃ entries, t = .record (P.struct c).name entries ∧
      List.Forall₂ (fun f x => x.1 = f.name ∧
        Covers f.type (schemaOf x.2.1 : Schema Leaf (Scalar O))) (P.struct c).fields entries := by
  rw [Program.schemaClsToAvroSchema] at h
  split at h
  · obtain ⟨r, hr, hok⟩ := Option.map_eq_some_iff.mp h
    cases hok
    have hfresh := fresh_of_legal hr hlegal
    cases fuel with
    | zero => cases hr
    | succ fuel =>
      obtain ⟨x, hx, hr⟩ := Option.bind_eq_some_iff.mp hr
      obtain rfl := Option.some.inj hr
      obtain ⟨-, hall⟩ := mapAccum_forall₂ List.Subset.refl (fun _ _ _ => List.Subset.trans)
        (fun _ _ _ _ _ => fieldEntry_grows fun _ _ _ => recordSchema_grows) hx
      refine ⟨x.1, rfl, hall.imp ?_⟩
      rintro f y ⟨s, s', hy, hle⟩
      obtain ⟨hname, htype⟩ := fieldEntry_eq_some hy
      refine ⟨hname, ?_⟩
      exact (covers_avroTypeFor P (fun _ _ _ => recordSchema_grows) f.type htype).2
        fun c' hc' => hfresh c' (hle hc')
  · cases h

end Taas.EventValues
