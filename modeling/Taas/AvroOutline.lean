import Taas.AvroSchema

/-!
The outline of an event class: its annotations as a tree in which every Struct is unfolded
where the depth-first walk meets it first and is known from then on. A schema is the outline
in Avro's terms, and the walk ends.
-/
namespace Taas.AvroSchema

open MapAccum

inductive Outline (S E : Type)
  | plain (t : PlainType)
  | list (item : Outline S E)
  | dict (value : Outline S E)
  | enum (e : E)
  /-- A Struct that was met before. -/
  | known (c : S)
  | struct (c : S) (fields : List (Field S E × Outline S E))
  | union (members : List (Outline S E))

variable {S E : Type} {P : Program S E}

namespace Outline

mutual

/-- The outline in Avro's terms. -/
def avro (P : Program S E) : Outline S E → AvroType
  | plain t => t.avro
  | list item => .array (item.avro P)
  | dict value => .map (value.avro P)
  | enum e => .enum (P.enum e).name (P.enum e).symbols
  | known c => .name (P.struct c).name
  | struct c fields => .record (P.struct c).name (avroFields P fields)
  | union members => .union (avroMembers P members)

def avroFields (P : Program S E) :
    List (Field S E × Outline S E) → List (String × AvroType × Option Default)
  | [] => []
  | (f, u) :: fields =>
    (f.name, u.avro P, avroDefaultFor f.default (u.avro P)) :: avroFields P fields

def avroMembers (P : Program S E) : List (Outline S E) → List AvroType
  | [] => []
  | u :: members => u.avro P :: avroMembers P members

end

/-- A member is added unless one with the same schema is there. -/
def addMember (P : Program S E) (members : List (Outline S E)) (u : Outline S E) :
    List (Outline S E) :=
  if (avroMembers P members).any (u.avro P).same then members else members ++ [u]

def unionOf : List (Outline S E) → Outline S E
  | [] => plain .other
  | [u] => u
  | us => union us

def noneFirst (members : List (FieldType S E)) : List (Outline S E) :=
  if members.any FieldType.isNone then [plain .none] else []

end Outline

namespace Program

variable [DecidableEq S]

mutual

/-- The outline of an annotation, where `enter` is the walk into a Struct. -/
def outline (P : Program S E) (enter : S → List S → Option (Outline S E × List S)) :
    FieldType S E → List S → Option (Outline S E × List S)
  | .union members, met => do
    let (us, met) ← P.outlineMembers enter members met
    return (Outline.unionOf (us.foldl (Outline.addMember P) (Outline.noneFirst members)), met)
  | .plain t, met => some (.plain t, met)
  | .list item, met => do
    let (item, met) ← P.outline enter item met
    return (.list item, met)
  | .bareList, met => some (.list (.plain .other), met)
  | .dict value, met => do
    let (value, met) ← P.outline enter value met
    return (.dict value, met)
  | .bareDict, met => some (.dict (.plain .other), met)
  | .struct c, met => if c ∈ met then some (.known c, met) else enter c met
  | .enum e, met => some (.enum e, met)

def outlineMembers (P : Program S E) (enter : S → List S → Option (Outline S E × List S)) :
    List (FieldType S E) → List S → Option (List (Outline S E) × List S)
  | [], met => some ([], met)
  | member :: members, met =>
    if member.isNone then P.outlineMembers enter members met
    else do
      let (u, met) ← P.outline enter member met
      let (us, met) ← P.outlineMembers enter members met
      return (u :: us, met)

end

def outlineField (P : Program S E) (enter : S → List S → Option (Outline S E × List S))
    (f : Field S E) (met : List S) : Option ((Field S E × Outline S E) × List S) := do
  let (u, met) ← P.outline enter f.type met
  return ((f, u), met)

/-- The outline of a Struct that is met for the first time. -/
def outlineStruct (P : Program S E) : ℕ → S → List S → Option (Outline S E × List S)
  | 0, _, _ => none
  | fuel + 1, c, met => do
    let (fields, met) ←
      mapAccum (P.outlineField (P.outlineStruct fuel)) (P.struct c).fields (met ++ [c])
    return (.struct c fields, met)

end Program

/-- The induction on annotations, with the members of a union. -/
theorem FieldType.induct {Q : FieldType S E → Prop} (hplain : ∀ t, Q (plain t))
    (hlist : ∀ item, Q item → Q (list item)) (hbareList : Q bareList)
    (hdict : ∀ value, Q value → Q (dict value)) (hbareDict : Q bareDict)
    (hstruct : ∀ c, Q (struct c)) (henum : ∀ e, Q (enum e))
    (hunion : ∀ members, (∀ a ∈ members, Q a) → Q (union members)) (a : FieldType S E) : Q a := by
  refine @FieldType.rec S E Q (fun members => ∀ a ∈ members, Q a) hplain hlist hbareList hdict
    hbareDict hstruct henum hunion ?_ ?_ a
  · simp
  · intro a members ha hmembers b hb
    rcases List.mem_cons.mp hb with rfl | hb
    · exact ha
    · exact hmembers b hb

theorem Outline.induct {Q : Outline S E → Prop} (hplain : ∀ t, Q (plain t))
    (hlist : ∀ item, Q item → Q (list item)) (hdict : ∀ value, Q value → Q (dict value))
    (henum : ∀ e, Q (enum e)) (hknown : ∀ c, Q (known c))
    (hstruct : ∀ c fields, (∀ x ∈ fields, Q x.2) → Q (struct c fields))
    (hunion : ∀ members, (∀ u ∈ members, Q u) → Q (union members)) (u : Outline S E) : Q u := by
  refine @Outline.rec S E Q (fun fields => ∀ x ∈ fields, Q x.2)
    (fun members => ∀ u ∈ members, Q u) (fun x => Q x.2) hplain hlist hdict henum hknown
    hstruct hunion ?_ ?_ ?_ ?_ (fun _ _ h => h) u
  · simp
  · intro x fields hx hfields y hy
    rcases List.mem_cons.mp hy with rfl | hy
    · exact hx
    · exact hfields y hy
  · simp
  · intro u members hu hmembers w hw
    rcases List.mem_cons.mp hw with rfl | hw
    · exact hu
    · exact hmembers w hw

namespace Outline

theorem avroMembers_eq (P : Program S E) (us : List (Outline S E)) :
    avroMembers P us = us.map (avro P) := by
  induction us with
  | nil => rfl
  | cons u us ih => rw [avroMembers, ih, List.map_cons]

theorem avroFields_eq (P : Program S E) (fields : List (Field S E × Outline S E)) :
    avroFields P fields = fields.map fun x =>
      (x.1.name, x.2.avro P, avroDefaultFor x.1.default (x.2.avro P)) := by
  induction fields with
  | nil => rfl
  | cons x fields ih => rw [avroFields, ih, List.map_cons]

theorem avro_addMember (members : List (Outline S E)) (u : Outline S E) :
    (addMember P members u).map (avro P) = addBranch (members.map (avro P)) (u.avro P) := by
  unfold addMember addBranch
  rw [avroMembers_eq]
  split <;> simp

theorem avro_foldl_addMember (us members : List (Outline S E)) :
    (us.foldl (addMember P) members).map (avro P) =
      (us.map (avro P)).foldl addBranch (members.map (avro P)) := by
  induction us generalizing members with
  | nil => rfl
  | cons u us ih => rw [List.foldl_cons, ih, avro_addMember, List.map_cons, List.foldl_cons]

theorem avro_unionOf (us : List (Outline S E)) :
    (unionOf us).avro P = AvroSchema.unionOf (us.map (avro P)) := by
  match us with
  | [] => rfl
  | [u] => rfl
  | u :: w :: us => simp [unionOf, avro, avroMembers_eq, AvroSchema.unionOf]

theorem avro_noneFirst (members : List (FieldType S E)) :
    (noneFirst members).map (avro P) = nullFirst members := by
  unfold noneFirst nullFirst
  split <;> rfl

end Outline

namespace Program

variable [DecidableEq S] {enter : S → List S → Option (Outline S E × List S)}
variable {recordSchema : S → List S → Option (AvroType × List S)}

theorem unionBranches_eq (members : List (FieldType S E)) (branches : List AvroType)
    (defined : List S) : P.unionBranches recordSchema members branches defined =
      (mapAccum (P.avroTypeFor recordSchema) (members.filter fun a => !a.isNone) defined).map
        fun r => (r.1.foldl addBranch branches, r.2) := by
  induction members generalizing branches defined with
  | nil => rfl
  | cons a members ih =>
    rw [unionBranches]
    cases ha : a.isNone with
    | true => simp [ha, ih]
    | false =>
      simp only [Bool.false_eq_true, if_false, ih, ha, Bool.not_false, List.filter_cons_of_pos,
        mapAccum]
      cases P.avroTypeFor recordSchema a defined with
      | none => rfl
      | some r =>
        cases hrest : mapAccum (P.avroTypeFor recordSchema) (members.filter fun a => !a.isNone) r.2
          <;> simp [hrest]

theorem outlineMembers_eq (members : List (FieldType S E)) (met : List S) :
    P.outlineMembers enter members met =
      mapAccum (P.outline enter) (members.filter fun a => !a.isNone) met := by
  induction members generalizing met with
  | nil => rfl
  | cons a members ih =>
    rw [outlineMembers]
    cases ha : a.isNone with
    | true => simp [ha, ih]
    | false =>
      simp only [Bool.false_eq_true, if_false, ih, ha, Bool.not_false, List.filter_cons_of_pos,
        mapAccum]
      cases P.outline enter a met with
      | none => rfl
      | some r =>
        cases hrest : mapAccum (P.outline enter) (members.filter fun a => !a.isNone) r.2
          <;> simp [hrest]

variable {met : List S} {r : Outline S E × List S}

theorem outline_list_eq_some {item : FieldType S E} : P.outline enter (.list item) met = some r ↔
    ∃ x, P.outline enter item met = some x ∧ (.list x.1, x.2) = r := by
  simp [outline, Option.bind_eq_some_iff]

theorem outline_dict_eq_some {value : FieldType S E} : P.outline enter (.dict value) met = some r ↔
    ∃ x, P.outline enter value met = some x ∧ (.dict x.1, x.2) = r := by
  simp [outline, Option.bind_eq_some_iff]

theorem outline_union_eq_some {members : List (FieldType S E)} :
    P.outline enter (.union members) met = some r ↔
      ∃ x, mapAccum (P.outline enter) (members.filter fun a => !a.isNone) met = some x ∧
        (Outline.unionOf (x.1.foldl (Outline.addMember P) (Outline.noneFirst members)), x.2) =
          r := by
  simp [outline, outlineMembers_eq, Option.bind_eq_some_iff]

theorem outlineField_eq_some {f : Field S E} {r : (Field S E × Outline S E) × List S} :
    P.outlineField enter f met = some r ↔
      ∃ x, P.outline enter f.type met = some x ∧ ((f, x.1), x.2) = r := by
  simp [outlineField, Option.bind_eq_some_iff]

theorem outlineStruct_eq_some {fuel : ℕ} {c : S} : P.outlineStruct (fuel + 1) c met = some r ↔
    ∃ x, mapAccum (P.outlineField (P.outlineStruct fuel)) (P.struct c).fields (met ++ [c]) =
      some x ∧ (.struct c x.1, x.2) = r := by
  simp [outlineStruct, Option.bind_eq_some_iff]

/-- Where a schema comes from the outline of each Struct, it comes from that of each annotation. -/
theorem avroTypeFor_eq
    (h : ∀ c met, recordSchema c met = (enter c met).map fun r => (r.1.avro P, r.2))
    (a : FieldType S E) (met : List S) :
    P.avroTypeFor recordSchema a met =
      (P.outline enter a met).map fun r => (r.1.avro P, r.2) := by
  induction a using FieldType.induct generalizing met with
  | hplain t => rfl
  | hbareList => rfl
  | hbareDict => rfl
  | hlist item ih =>
    rw [avroTypeFor, outline, ih]
    cases P.outline enter item met <;> rfl
  | hdict value ih =>
    rw [avroTypeFor, outline, ih]
    cases P.outline enter value met <;> rfl
  | hstruct c =>
    rw [avroTypeFor, outline, h]
    split <;> rfl
  | henum e => rfl
  | hunion members ih =>
    have hmembers := mapAccum_map (f := P.avroTypeFor recordSchema) (k := P.outline enter)
      (e := Outline.avro P) (s := met) (l := members.filter fun a => !a.isNone)
      fun a ha met => ih a (List.mem_of_mem_filter ha) met
    rw [avroTypeFor, unionBranches_eq, hmembers, outline, outlineMembers_eq]
    cases mapAccum (P.outline enter) (members.filter fun a => !a.isNone) met with
    | none => rfl
    | some r =>
      simp [Outline.avro_unionOf, Outline.avro_foldl_addMember, Outline.avro_noneFirst]

theorem recordSchema_eq (fuel : ℕ) (c : S) (met : List S) :
    P.recordSchema fuel c met =
      (P.outlineStruct fuel c met).map fun r => (r.1.avro P, r.2) := by
  induction fuel generalizing c met with
  | zero => rfl
  | succ fuel ih =>
    have hfields := mapAccum_map (f := P.fieldEntry (P.recordSchema fuel))
      (k := P.outlineField (P.outlineStruct fuel))
      (e := fun x => (x.1.name, x.2.avro P, avroDefaultFor x.1.default (x.2.avro P)))
      (s := met ++ [c]) (l := (P.struct c).fields) ?_
    · rw [Program.recordSchema, hfields, outlineStruct]
      cases mapAccum (P.outlineField (P.outlineStruct fuel)) (P.struct c).fields (met ++ [c]) with
      | none => rfl
      | some r => simp [Outline.avro, Outline.avroFields_eq]
    · intro f _ met
      rw [fieldEntry, avroTypeFor_eq ih, outlineField]
      cases P.outline (P.outlineStruct fuel) f.type met <;> rfl

/-- The classes that are not met yet. -/
def remaining (P : Program S E) (met : List S) : ℕ := (P.structs.filter (· ∉ met)).length

theorem remaining_of_subset {met met' : List S} (h : met ⊆ met') :
    P.remaining met' ≤ P.remaining met := by
  unfold remaining
  rw [← List.countP_eq_length_filter, ← List.countP_eq_length_filter]
  apply List.countP_mono_left
  intro c _ hc
  simp only [decide_eq_true_eq] at hc ⊢
  exact fun hmem => hc (h hmem)

theorem remaining_enter {met : List S} {c : S} (hc : c ∉ met) :
    P.remaining (met ++ [c]) < P.remaining met := by
  unfold remaining
  have hfilter : P.structs.filter (· ∉ met ++ [c]) =
      (P.structs.filter (· ∉ met)).filter (· ≠ c) := by
    rw [List.filter_filter]
    apply List.filter_congr
    intro c' _
    simp [and_comm]
  rw [hfilter]
  apply List.length_filter_lt_length_iff_exists.mpr
  exact ⟨c, List.mem_filter.mpr ⟨P.complete c, by simpa using hc⟩, by simp⟩

/-- Where the walk into every Struct that is not met succeeds, the walk of an annotation does. -/
theorem outline_succeeds {first : List S}
    (h : ∀ c met, first ⊆ met → c ∉ met → ∃ u met', enter c met = some (u, met') ∧ met ⊆ met')
    (a : FieldType S E) {met : List S} (hmet : first ⊆ met) :
    ∃ u met', P.outline enter a met = some (u, met') ∧ met ⊆ met' := by
  induction a using FieldType.induct generalizing met with
  | hplain t => exact ⟨_, _, rfl, List.Subset.refl met⟩
  | hbareList => exact ⟨_, _, rfl, List.Subset.refl met⟩
  | hbareDict => exact ⟨_, _, rfl, List.Subset.refl met⟩
  | henum e => exact ⟨_, _, rfl, List.Subset.refl met⟩
  | hlist item ih =>
    obtain ⟨u, met', hu, hsub⟩ := ih hmet
    exact ⟨.list u, met', by simp [outline, hu], hsub⟩
  | hdict value ih =>
    obtain ⟨u, met', hu, hsub⟩ := ih hmet
    exact ⟨.dict u, met', by simp [outline, hu], hsub⟩
  | hstruct c =>
    rw [outline]
    by_cases hc : c ∈ met
    · rw [if_pos hc]
      exact ⟨_, _, rfl, List.Subset.refl met⟩
    · rw [if_neg hc]
      exact h c met hmet hc
  | hunion members ih =>
    obtain ⟨us, met', hus, hsub⟩ := mapAccum_succeeds (f := P.outline enter) (I := (met ⊆ ·))
      (l := members.filter fun a => !a.isNone) (fun a ha m hm => by
        obtain ⟨u, m', hu, hm'⟩ := ih a (List.mem_of_mem_filter ha) (List.Subset.trans hmet hm)
        exact ⟨u, m', hu, List.Subset.trans hm hm'⟩) (List.Subset.refl met)
    refine ⟨Outline.unionOf (us.foldl (Outline.addMember P) (Outline.noneFirst members)), met', ?_,
      hsub⟩
    rw [outline, outlineMembers_eq, hus]
    rfl

/-- With a unit of fuel for each class that is not met the walk of a Struct succeeds. -/
theorem outlineStruct_succeeds (fuel : ℕ) {c : S} {met : List S} (hc : c ∉ met)
    (hfuel : P.remaining met ≤ fuel) :
    ∃ u met', P.outlineStruct fuel c met = some (u, met') ∧ met ⊆ met' := by
  induction fuel generalizing c met with
  | zero =>
    have hlt := remaining_enter (P := P) hc
    omega
  | succ fuel ih =>
    have hlt := remaining_enter (P := P) hc
    have henter : ∀ c' met', met ++ [c] ⊆ met' → c' ∉ met' →
        ∃ u m, P.outlineStruct fuel c' met' = some (u, m) ∧ met' ⊆ m := by
      intro c' met' hsub hc'
      have hle := remaining_of_subset (P := P) hsub
      exact ih hc' (by omega)
    obtain ⟨fields, met', hfields, hsub⟩ := mapAccum_succeeds
      (f := P.outlineField (P.outlineStruct fuel)) (I := (met ++ [c] ⊆ ·))
      (l := (P.struct c).fields) (fun f _ m hm => by
        obtain ⟨u, m', hu, hm'⟩ := outline_succeeds henter f.type hm
        exact ⟨(f, u), m', by rw [outlineField, hu]; rfl, List.Subset.trans hm hm'⟩)
      (List.Subset.refl (met ++ [c]))
    refine ⟨.struct c fields, met', by simp [outlineStruct, hfields], ?_⟩
    exact List.Subset.trans (List.subset_append_left met [c]) hsub

theorem outline_mono {enter' : S → List S → Option (Outline S E × List S)}
    (h : ∀ c met r, enter c met = some r → enter' c met = some r) (a : FieldType S E)
    {met : List S} {r : Outline S E × List S} (hr : P.outline enter a met = some r) :
    P.outline enter' a met = some r := by
  induction a using FieldType.induct generalizing met r with
  | hplain t => exact hr
  | hbareList => exact hr
  | hbareDict => exact hr
  | henum e => exact hr
  | hlist item ih =>
    obtain ⟨x, hx, hr⟩ := outline_list_eq_some.mp hr
    exact outline_list_eq_some.mpr ⟨x, ih hx, hr⟩
  | hdict value ih =>
    obtain ⟨x, hx, hr⟩ := outline_dict_eq_some.mp hr
    exact outline_dict_eq_some.mpr ⟨x, ih hx, hr⟩
  | hstruct c =>
    rw [outline] at hr ⊢
    by_cases hc : c ∈ met
    · rw [if_pos hc] at hr ⊢
      exact hr
    · rw [if_neg hc] at hr ⊢
      exact h c met r hr
  | hunion members ih =>
    obtain ⟨x, hx, hr⟩ := outline_union_eq_some.mp hr
    have hmembers := mapAccum_mono (fun a ha m r => ih a (List.mem_of_mem_filter ha)) hx
    exact outline_union_eq_some.mpr ⟨x, hmembers, hr⟩

theorem outlineStruct_mono {fuel fuel' : ℕ} (hle : fuel ≤ fuel') {c : S} {met : List S}
    {r : Outline S E × List S} (hr : P.outlineStruct fuel c met = some r) :
    P.outlineStruct fuel' c met = some r := by
  induction fuel generalizing fuel' c met r with
  | zero => cases hr
  | succ fuel ih =>
    obtain ⟨n, rfl⟩ : ∃ n, fuel' = n + 1 := ⟨fuel' - 1, by omega⟩
    obtain ⟨x, hx, hr⟩ := outlineStruct_eq_some.mp hr
    refine outlineStruct_eq_some.mpr ⟨x, mapAccum_mono (fun f _ m y hy => ?_) hx, hr⟩
    obtain ⟨u, hu, hy⟩ := outlineField_eq_some.mp hy
    have hmono : ∀ c m r, P.outlineStruct fuel c m = some r → P.outlineStruct n c m = some r :=
      fun c m r => ih (by omega)
    exact outlineField_eq_some.mpr ⟨u, outline_mono hmono f.type hu, hy⟩

end Program

end Taas.AvroSchema
