import Mathlib.Data.List.Nodup
import Taas.AvroLegal

/-!
What the walk of an event class keeps: it defines every Struct that it meets, once, and has the
name of a Struct before it refers to it. The rules put walks together; the walk of an annotation
and the walk into a Struct are inductions by these rules.
-/
namespace Taas.AvroSchema

open MapAccum

variable {S E : Type} {P : Program S E}

/-- The walk from `met` to `met'` through these parts: it defines every Struct that it meets, once,
and a Struct that it does not define has its name from before. -/
structure Walked (P : Program S E) (met : List S) (parts : List (Outline S E)) (met' : List S) :
    Prop where
  grows : ∃ new, met' = met ++ new ∧ new.Nodup ∧ (∀ c ∈ new, c ∉ met) ∧
    ((parts.filterMap Outline.definedClass).filterMap Sum.getLeft?).Sublist new
  resolved : ∀ l c r, parts = l ++ .known c :: r →
    P.nameOf (.inl c) ∈ met.map (P.nameOf ∘ .inl) ∨
      P.nameOf (.inl c) ∈ (l.filterMap Outline.definedClass).map P.nameOf
  defined : ∀ c ∈ met', P.nameOf (.inl c) ∈ met.map (P.nameOf ∘ .inl) ∨
    P.nameOf (.inl c) ∈ (parts.filterMap Outline.definedClass).map P.nameOf
  flat : ∀ members, .union members ∈ parts → ∀ u ∈ members, u.isUnion = false

namespace Walked

variable {met met' met'' : List S} {parts parts' : List (Outline S E)}

theorem single {u : Outline S E} (hdefined : u.definedClass.bind Sum.getLeft? = none)
    (hknown : ∀ c, u = .known c → c ∈ met)
    (hflat : ∀ members, u = .union members → ∀ w ∈ members, w.isUnion = false) :
    Walked P met [u] met where
  grows := by
    refine ⟨[], by simp, List.nodup_nil, by simp, ?_⟩
    rw [List.filterMap_filterMap]
    simp [hdefined]
  resolved l c r h := by
    left
    have hu : u = .known c := by
      have hmem : Outline.known c ∈ [u] := by rw [h]; simp
      exact (List.mem_singleton.mp hmem).symm
    exact List.mem_map.mpr ⟨c, hknown c hu, rfl⟩
  defined c hc := Or.inl (List.mem_map.mpr ⟨c, hc, rfl⟩)
  flat members h := hflat members (List.mem_singleton.mp h).symm

theorem nil : Walked P met [] met where
  grows := ⟨[], by simp⟩
  resolved := by simp
  defined c hc := Or.inl (List.mem_map.mpr ⟨c, hc, rfl⟩)
  flat := by simp

theorem append (h : Walked P met parts met') (h' : Walked P met' parts' met'') :
    Walked P met (parts ++ parts') met'' := by
  have hcarry : ∀ n, n ∈ met'.map (P.nameOf ∘ Sum.inl) → n ∈ met.map (P.nameOf ∘ Sum.inl) ∨
      n ∈ (parts.filterMap Outline.definedClass).map P.nameOf := by
    intro n hn
    obtain ⟨c, hc, rfl⟩ := List.mem_map.mp hn
    exact h.defined c hc
  constructor
  · obtain ⟨new, rfl, hnodup, hfresh, hsub⟩ := h.grows
    obtain ⟨new', rfl, hnodup', hfresh', hsub'⟩ := h'.grows
    refine ⟨new ++ new', by simp, ?_, ?_, ?_⟩
    · apply List.nodup_append.mpr
      refine ⟨hnodup, hnodup', fun c hc c' hc' heq => ?_⟩
      subst heq
      exact hfresh' c hc' (List.mem_append_right met hc)
    · intro c hc
      rcases List.mem_append.mp hc with hc | hc
      · exact hfresh c hc
      · exact fun hmet => hfresh' c hc (List.mem_append_left new hmet)
    · rw [List.filterMap_append, List.filterMap_append]
      exact hsub.append hsub'
  · intro l c r heq
    have hright : ∀ m, parts' = m ++ .known c :: r →
        P.nameOf (.inl c) ∈ met.map (P.nameOf ∘ Sum.inl) ∨
          P.nameOf (.inl c) ∈ ((parts ++ m).filterMap Outline.definedClass).map P.nameOf := by
      intro m hm
      rw [List.filterMap_append, List.map_append]
      rcases h'.resolved m c r hm with hname | hname
      · rcases hcarry _ hname with hname | hname
        · exact Or.inl hname
        · exact Or.inr (List.mem_append_left _ hname)
      · exact Or.inr (List.mem_append_right _ hname)
    rcases List.append_eq_append_iff.mp heq with ⟨m, rfl, hrest⟩ | ⟨m, hleft, hrest⟩
    · exact hright m hrest
    · cases m with
      | nil =>
        rw [List.append_nil] at hleft
        rw [← List.append_nil l, ← hleft]
        exact hright [] hrest.symm
      | cons u m =>
        obtain ⟨rfl, -⟩ := List.cons.inj hrest
        exact h.resolved l c m hleft
  · intro c hc
    rw [List.filterMap_append, List.map_append]
    rcases h'.defined c hc with hname | hname
    · rcases hcarry _ hname with hname | hname
      · exact Or.inl hname
      · exact Or.inr (List.mem_append_left _ hname)
    · exact Or.inr (List.mem_append_right _ hname)
  · intro members hmem
    rcases List.mem_append.mp hmem with hmem | hmem
    · exact h.flat members hmem
    · exact h'.flat members hmem

/-- A walk whose parts are left out, because their names are defined already. -/
theorem drop (h : Walked P met parts met') (h' : Walked P met' parts' met'')
    (hnames : ∀ n ∈ (parts'.filterMap Outline.definedClass).map P.nameOf,
      n ∈ (parts.filterMap Outline.definedClass).map P.nameOf) : Walked P met parts met'' := by
  obtain ⟨hgrows, -, hdefined, -⟩ := h.append h'
  constructor
  · obtain ⟨new, hnew, hnodup, hfresh, hsub⟩ := hgrows
    refine ⟨new, hnew, hnodup, hfresh, List.Sublist.trans ?_ hsub⟩
    exact ((List.sublist_append_left parts parts').filterMap _).filterMap _
  · exact h.resolved
  · intro c hc
    rcases hdefined c hc with hname | hname
    · exact Or.inl hname
    · rw [List.filterMap_append, List.map_append] at hname
      rcases List.mem_append.mp hname with hname | hname
      · exact Or.inr hname
      · exact Or.inr (hnames _ hname)
  · exact h.flat

theorem struct {c : S} {fields : List (Field S E × Outline S E)} (hc : c ∉ met)
    (h : Walked P (met ++ [c]) parts met') : Walked P met (.struct c fields :: parts) met' := by
  have hcarry : ∀ n, n ∈ (met ++ [c]).map (P.nameOf ∘ Sum.inl) →
      n ∈ met.map (P.nameOf ∘ Sum.inl) ∨ n = P.nameOf (.inl c) := by
    intro n hn
    simpa using hn
  constructor
  · obtain ⟨new, rfl, hnodup, hfresh, hsub⟩ := h.grows
    refine ⟨c :: new, by simp, ?_, ?_, ?_⟩
    · refine List.nodup_cons.mpr ⟨fun hmem => ?_, hnodup⟩
      exact hfresh c hmem (by simp)
    · intro c' hc'
      rcases List.mem_cons.mp hc' with rfl | hc'
      · exact hc
      · exact fun hmet => hfresh c' hc' (List.mem_append_left [c] hmet)
    · exact hsub.cons_cons c
  · intro l c' r heq
    cases l with
    | nil => simp at heq
    | cons u l =>
      obtain ⟨rfl, hparts⟩ := List.cons.inj heq
      rcases h.resolved l c' r hparts with hname | hname
      · rcases hcarry _ hname with hname | hname
        · exact Or.inl hname
        · right
          rw [hname]
          exact List.mem_cons_self
      · exact Or.inr (List.mem_cons_of_mem _ hname)
  · intro c' hc'
    rcases h.defined c' hc' with hname | hname
    · rcases hcarry _ hname with hname | hname
      · exact Or.inl hname
      · right
        rw [hname]
        exact List.mem_cons_self
    · exact Or.inr (List.mem_cons_of_mem _ hname)
  · intro members hmem
    rcases List.mem_cons.mp hmem with heq | hmem
    · cases heq
    · exact h.flat members hmem

theorem cons {u : Outline S E} (hdefined : u.definedClass = none) (hknown : ∀ c, u ≠ .known c)
    (hflat : ∀ members, u = .union members → ∀ w ∈ members, w.isUnion = false)
    (h : Walked P met parts met') : Walked P met (u :: parts) met' := by
  apply append (single ?_ ?_ hflat) h
  · rw [hdefined]
    rfl
  · intro c hu
    exact absurd hu (hknown c)

theorem unionOf {members : List (Outline S E)}
    (h : Walked P met (Outline.memberParts members) met')
    (hflat : ∀ u ∈ members, u.isUnion = false) :
    Walked P met (Outline.unionOf members).parts met' := by
  match members with
  | [] =>
    have hother : Walked P met' [.plain .other] met' := single rfl (by simp) (by simp)
    exact h.append hother
  | [u] => simpa [Outline.unionOf, Outline.memberParts] using h
  | u :: w :: us =>
    apply cons rfl (by simp) ?_ h
    intro members hmembers
    obtain rfl := Outline.union.inj hmembers
    exact hflat

theorem addMember {members : List (Outline S E)} {u : Outline S E}
    (h : Walked P met (Outline.memberParts members) met') (h' : Walked P met' u.parts met'') :
    Walked P met (Outline.memberParts (Outline.addMember P members u)) met'' := by
  unfold Outline.addMember
  by_cases hany : (Outline.avroMembers P members).any (u.avro P).same = true
  · rw [if_pos hany]
    apply h.drop h'
    intro n hn
    obtain ⟨t, ht, hsame⟩ := List.any_eq_true.mp hany
    rw [Outline.avroMembers_eq] at ht
    obtain ⟨w, hw, rfl⟩ := List.mem_map.mp ht
    have hdefinitions := AvroType.definitions_same hsame
    rw [Outline.definitions_avro, Outline.definitions_avro] at hdefinitions
    rw [← Outline.definitions, hdefinitions] at hn
    rw [Outline.memberParts_eq, List.filterMap_flatMap, List.map_flatMap]
    exact List.mem_flatMap.mpr ⟨w, hw, hn⟩
  · rw [if_neg hany, Outline.memberParts_eq, List.flatMap_append, ← Outline.memberParts_eq]
    simpa using h.append h'

end Walked

namespace Program

theorem flatMembers_iff {members : List (FieldType S E)} : FieldType.flatMembers members ↔
    ∀ a ∈ members, a.isUnion = false ∧ a.flat := by
  induction members with
  | nil => simp [FieldType.flatMembers]
  | cons a members ih => simp [FieldType.flatMembers, ih]

variable [DecidableEq S] {enter : S → List S → Option (Outline S E × List S)}

theorem outline_isUnion (henter : ∀ c met r, enter c met = some r → r.1.isUnion = false)
    {a : FieldType S E} (ha : a.isUnion = false) {met : List S} {r : Outline S E × List S}
    (hr : P.outline enter a met = some r) : r.1.isUnion = false := by
  cases a with
  | union members => cases ha
  | struct c =>
    rw [outline] at hr
    split at hr
    · obtain rfl := Option.some.inj hr
      rfl
    · exact henter c met r hr
  | list item =>
    obtain ⟨x, -, rfl⟩ := outline_list_eq_some.mp hr
    rfl
  | dict value =>
    obtain ⟨x, -, rfl⟩ := outline_dict_eq_some.mp hr
    rfl
  | _ =>
    obtain rfl := Option.some.inj hr
    rfl

/-- The members of a union are added one after the other, and none of them is a union. -/
theorem members_walked (hunion : ∀ c met r, enter c met = some r → r.1.isUnion = false)
    {members : List (FieldType S E)} (h : ∀ a ∈ members, a.isUnion = false ∧
      ∀ {met r}, P.outline enter a met = some r → Walked P met r.1.parts r.2)
    {met : List S} {x : List (Outline S E) × List S}
    (hx : mapAccum (P.outline enter) (members.filter fun a => !a.isNone) met = some x) :
    Walked P met (Outline.memberParts
        (x.1.foldl (Outline.addMember P) (Outline.noneFirst members))) x.2 ∧
      ∀ u ∈ x.1.foldl (Outline.addMember P) (Outline.noneFirst members), u.isUnion = false := by
  have hstart : Walked P met (Outline.memberParts (Outline.noneFirst members)) met ∧
      ∀ u ∈ Outline.noneFirst members, u.isUnion = false := by
    unfold Outline.noneFirst
    split
    · have hnone : Walked P met [.plain .none] met := Walked.single rfl (by simp) (by simp)
      exact ⟨hnone, by simp [Outline.isUnion]⟩
    · exact ⟨Walked.nil, by simp⟩
  have hstep : ∀ a ∈ members.filter fun a => !a.isNone, ∀ us s u s',
      (Walked P met (Outline.memberParts us) s ∧ ∀ w ∈ us, w.isUnion = false) →
      P.outline enter a s = some (u, s') →
      Walked P met (Outline.memberParts (Outline.addMember P us u)) s' ∧
        ∀ w ∈ Outline.addMember P us u, w.isUnion = false := by
    intro a ha us s u s' hus hu
    obtain ⟨hnot, hwalked⟩ := h a (List.mem_of_mem_filter ha)
    refine ⟨hus.1.addMember (hwalked hu), fun w hw => ?_⟩
    unfold Outline.addMember at hw
    split at hw
    · exact hus.2 w hw
    · rcases List.mem_append.mp hw with hw | hw
      · exact hus.2 w hw
      · obtain rfl := List.mem_singleton.mp hw
        exact outline_isUnion hunion hnot hu
  exact mapAccum_invariant hstep hstart hx

/-- Where the walk into every Struct keeps the invariant, the walk of an annotation does. -/
theorem outline_walked (hunion : ∀ c met r, enter c met = some r → r.1.isUnion = false)
    (henter : ∀ c met r, c ∉ met → enter c met = some r → Walked P met r.1.parts r.2)
    (a : FieldType S E) (hflat : a.flat) {met : List S} {r : Outline S E × List S}
    (hr : P.outline enter a met = some r) : Walked P met r.1.parts r.2 := by
  induction a using FieldType.induct generalizing met r with
  | hplain t =>
    obtain rfl := Option.some.inj hr
    exact Walked.single rfl (by simp) (by simp)
  | hbareList =>
    obtain rfl := Option.some.inj hr
    exact Walked.cons rfl (by simp) (by simp) (Walked.single rfl (by simp) (by simp))
  | hbareDict =>
    obtain rfl := Option.some.inj hr
    exact Walked.cons rfl (by simp) (by simp) (Walked.single rfl (by simp) (by simp))
  | henum e =>
    obtain rfl := Option.some.inj hr
    exact Walked.single rfl (by simp) (by simp)
  | hlist item ih =>
    obtain ⟨x, hx, rfl⟩ := outline_list_eq_some.mp hr
    exact Walked.cons rfl (by simp) (by simp) (ih hflat hx)
  | hdict value ih =>
    obtain ⟨x, hx, rfl⟩ := outline_dict_eq_some.mp hr
    exact Walked.cons rfl (by simp) (by simp) (ih hflat hx)
  | hstruct c =>
    rw [outline] at hr
    by_cases hc : c ∈ met
    · rw [if_pos hc] at hr
      obtain rfl := Option.some.inj hr
      apply Walked.single rfl ?_ (by simp)
      intro c' hc'
      obtain rfl := Outline.known.inj hc'
      exact hc
    · rw [if_neg hc] at hr
      exact henter c met r hc hr
  | hunion members ih =>
    obtain ⟨x, hx, rfl⟩ := outline_union_eq_some.mp hr
    have heach : ∀ a ∈ members, a.isUnion = false ∧
        ∀ {met r}, P.outline enter a met = some r → Walked P met r.1.parts r.2 := by
      intro a ha
      obtain ⟨hnot, hflat⟩ := flatMembers_iff.mp hflat a ha
      exact ⟨hnot, ih a ha hflat⟩
    obtain ⟨hwalked, hmembers⟩ := members_walked hunion heach hx
    exact hwalked.unionOf hmembers

theorem outlineStruct_isUnion {fuel : ℕ} {c : S} {met : List S} {r : Outline S E × List S}
    (hr : P.outlineStruct fuel c met = some r) : r.1.isUnion = false := by
  cases fuel with
  | zero => cases hr
  | succ fuel =>
    obtain ⟨x, -, rfl⟩ := outlineStruct_eq_some.mp hr
    rfl

theorem outlineStruct_walked {fuel : ℕ} {c : S} {met : List S} {r : Outline S E × List S}
    (hc : c ∉ met) (hr : P.outlineStruct fuel c met = some r) : Walked P met r.1.parts r.2 := by
  induction fuel generalizing c met r with
  | zero => cases hr
  | succ fuel ih =>
    obtain ⟨x, hx, rfl⟩ := outlineStruct_eq_some.mp hr
    apply Walked.struct hc
    have hstep : ∀ f ∈ (P.struct c).fields, ∀ fields s y s',
        Walked P (met ++ [c]) (Outline.fieldParts fields) s →
        P.outlineField (P.outlineStruct fuel) f s = some (y, s') →
        Walked P (met ++ [c]) (Outline.fieldParts (fields ++ [y])) s' := by
      intro f _ fields s y s' hfields hy
      obtain ⟨u, hu, hy⟩ := outlineField_eq_some.mp hy
      obtain ⟨rfl, rfl⟩ := Prod.mk.inj hy
      have hwalked := outline_walked (fun c' m r' => outlineStruct_isUnion)
        (fun c' m r' hc' => ih hc') f.type f.flat hu
      rw [Outline.fieldParts_eq, List.flatMap_append, ← Outline.fieldParts_eq]
      simpa using hfields.append hwalked
    have hstart : Walked P (met ++ [c]) (Outline.fieldParts []) (met ++ [c]) := Walked.nil
    have hfields := mapAccum_collects (R := fun fields s =>
      Walked P (met ++ [c]) (Outline.fieldParts fields) s) hstep hstart hx
    exact hfields

end Program

end Taas.AvroSchema
