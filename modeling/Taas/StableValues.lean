import Taas.EventValues

/-!
The values that both ways to publish an event carry alike: those that JSON leaves as they are,
dates, whose texts fastavro takes for them, and a `datetime` in a field of its own, which
`_prepare_for_avro` reads back from its text.
-/
namespace Taas.StableValues

open AvroData AvroSchema Python SchemaRegistryEncoder OutboxJson AvroWriter EventValues

variable {O : Type}

/-- The value is written under the schema, and JSON leaves it as it is, except for dates, and tuples
and sets outside of unions, which become lists. In a union fastavro may take the text of a date for
a text, and must not. -/
inductive Stable (F : Fastavro Leaf (Scalar O)) (root : Schema Leaf (Scalar O)) :
    Schema Leaf (Scalar O) → Datum (Scalar O) → Prop
  | leaf {l : Leaf} {v : Scalar O} : Takes l v → Stable F root (.leaf l) (.scalar v)
  | date (d : Date) : Stable F root (.leaf (leafOf .date)) (.scalar (.date d))
  | array {items : Schema Leaf (Scalar O)} (b : Bool) {xs : List (Datum (Scalar O))} :
      (∀ x ∈ xs, Stable F root items x) → Stable F root (.array items) (.list b xs)
  | map {values : Schema Leaf (Scalar O)} {es : List (String × Datum (Scalar O))} :
      (es.map Prod.fst).Nodup → (∀ x ∈ es, Stable F root values x.2) →
      Stable F root (.map values) (.dict es)
  | union {branches : List (Schema Leaf (Scalar O))} {d e : Datum (Scalar O)} :
      DatesOnly d → Written F root (.union branches) d e →
      Written F root (.union branches) (isoDates d) e → Stable F root (.union branches) d

/-- A `datetime` in a field of its own: fastavro writes it, and its offset is in whole minutes. -/
inductive KeptTime (F : Fastavro Leaf (Scalar O)) : Schema Leaf (Scalar O) → Datum (Scalar O) → Prop
  | intro {t : Datetime} {e : Datum (Scalar O)} :
      F.write (.leaf (leafOf .datetime)) (.scalar (.datetime t)) = some e →
      (∀ o, t.civil.utcoffset = some o → o % 60000000 = 0) →
      KeptTime F (.leaf (leafOf .datetime)) (.scalar (.datetime t))

variable {F : Fastavro Leaf (Scalar O)} {root s : Schema Leaf (Scalar O)} {M : Msgspec O}
  {d e j : Datum (Scalar O)} {v : Scalar O} {l : Leaf}

theorem plain_of_takes (h : Takes l v) : Plain v := by
  unfold Takes at h
  split at h <;> trivial

/-- A stable value and what JSON makes of it are read back as the same. -/
theorem stable_both (hF : Documented F root) (h : Stable F root s d) :
    ∃ j e, M.json d = some j ∧ Written F root s d e ∧ Written F root s j e := by
  induction h with
  | @leaf l v htakes =>
    have hw : Written F root (.leaf l) (.scalar v) (.scalar v) :=
      Written.flat rfl (hF.takes l v htakes)
    refine ⟨_, _, ?_, hw, hw⟩
    rw [Msgspec.json]
    exact scalar_plain (plain_of_takes htakes)
  | date d =>
    refine ⟨_, _, rfl, Written.flat rfl (hF.date d), Written.flat rfl ?_⟩
    rw [hF.dateText, Date.fromisoformat_isoformat, Option.map_some]
  | @array items b xs _ ih =>
    have hall : ∀ x ∈ xs, ∃ p : Datum (Scalar O) × Datum (Scalar O),
        M.json x = some p.1 ∧ Written F root items x p.2 ∧ Written F root items p.1 p.2 := by
      intro x hx
      obtain ⟨j, e, hboth⟩ := ih x hx
      exact ⟨(j, e), hboth⟩
    obtain ⟨ps, hps⟩ := exists_forall₂ hall
    refine ⟨.list true (ps.map Prod.fst), .list true (ps.map Prod.snd), ?_, ?_, ?_⟩
    · refine json_list_eq_some.mpr ⟨_, rfl, List.forall₂_map_right_iff.mpr (hps.imp ?_)⟩
      exact fun x p hp => hp.1
    · refine written_array.mpr ⟨_, rfl, List.forall₂_map_right_iff.mpr (hps.imp ?_)⟩
      exact fun x p hp => hp.2.1
    · refine written_array.mpr ⟨_, rfl, ?_⟩
      rw [List.forall₂_map_left_iff, List.forall₂_map_right_iff, List.forall₂_same]
      intro p hp
      obtain ⟨x, -, hboth⟩ := forall₂_mem_right hps hp
      exact hboth.2.2
  | @map values es hnodup _ ih =>
    have hall : ∀ x ∈ es, ∃ p : String × Datum (Scalar O) × Datum (Scalar O), p.1 = x.1 ∧
        M.json x.2 = some p.2.1 ∧ Written F root values x.2 p.2.2 ∧
        Written F root values p.2.1 p.2.2 := by
      intro x hx
      obtain ⟨j, e, hboth⟩ := ih x hx
      exact ⟨(x.1, j, e), rfl, hboth⟩
    obtain ⟨ps, hps⟩ := exists_forall₂ hall
    have hjson : List.Forall₂ (fun x y => y.1 = x.1 ∧ M.json x.2 = some y.2) es
        (ps.map fun p => (p.1, p.2.1)) :=
      List.forall₂_map_right_iff.mpr (hps.imp fun x p hp => ⟨hp.1, hp.2.1⟩)
    have hkeys := keys_eq (R := fun x y => M.json x = some y) hjson
    refine ⟨.dict (ps.map fun p => (p.1, p.2.1)), .dict (ps.map fun p => (p.1, p.2.2)),
      json_dict_eq_some.mpr ⟨_, rfl, hjson⟩, ?_, ?_⟩
    · refine written_map.mpr ⟨hnodup, _, rfl, List.forall₂_map_right_iff.mpr (hps.imp ?_)⟩
      exact fun x p hp => ⟨hp.1, hp.2.2.1⟩
    · refine written_map.mpr ⟨hkeys ▸ hnodup, _, rfl, ?_⟩
      rw [List.forall₂_map_left_iff, List.forall₂_map_right_iff, List.forall₂_same]
      intro p hp
      obtain ⟨x, -, hboth⟩ := forall₂_mem_right hps hp
      exact ⟨rfl, hboth.2.2.2⟩
  | union hdates hw hw' => exact ⟨_, _, json_datesOnly hdates, hw, hw'⟩

theorem not_written_text (hF : Documented F root) {t : PlainType}
    (ht : t ∈ [PlainType.bytes, .datetime, .time]) {x : String}
    (h : Written F root (.leaf (leafOf t)) (.scalar (.str x)) e) : False := by
  rw [written_flat rfl, hF.text t ht x] at h
  cases h

theorem stable_plain (hF : Documented F root) {t : PlainType} (hholds : holds t v)
    (hj : M.scalar v = some j) (hw : Written F root (.leaf (leafOf t)) (.scalar v) e)
    (hw' : Written F root (.leaf (leafOf t)) j e) :
    Stable F root (.leaf (leafOf t)) (.scalar v) := by
  have htext {x : String} (ht : t ∈ [PlainType.bytes, .datetime, .time])
      (hsame : j = .scalar (.str x)) : False := by
    subst hsame
    exact not_written_text hF ht hw'
  have hobject {o : O} : Written F root (.leaf (.primitive "string"))
      (.scalar (.object false o)) e → False := by
    intro hwritten
    obtain ⟨x, hx⟩ := hF.string _ _ ((written_flat rfl).mp hwritten)
    cases hx
  cases t with
  | bool =>
    cases v with
    | bool b => exact Stable.leaf trivial
    | _ => cases hholds
  | int =>
    cases v with
    | int n => exact Stable.leaf (hF.long n e ((written_flat rfl).mp hw))
    | _ => cases hholds
  | float =>
    cases v with
    | float x => exact Stable.leaf trivial
    | notFinite =>
      cases hj
      have hnone := (written_flat rfl).mp hw'
      rw [leafOf, hF.double] at hnone
      cases hnone
    | _ => cases hholds
  | str =>
    cases v with
    | str x => exact Stable.leaf trivial
    | _ => cases hholds
  | none =>
    cases v with
    | none => exact Stable.leaf trivial
    | _ => cases hholds
  | bytes =>
    cases v with
    | bytes b => exact (htext (by simp) (Option.some.inj hj).symm).elim
    | _ => cases hholds
  | datetime =>
    cases v with
    | datetime t => exact (htext (by simp) (Option.some.inj hj).symm).elim
    | _ => cases hholds
  | date =>
    cases v with
    | date d => exact Stable.date d
    | _ => cases hholds
  | time =>
    cases v with
    | time microseconds utcoffset => exact (htext (by simp) (Option.some.inj hj).symm).elim
    | _ => cases hholds
  | decimal | uuid =>
    cases v with
    | object isDict o =>
      cases isDict with
      | false => exact (hobject hw).elim
      | true => cases hholds
    | _ => cases hholds
  | other => cases hholds

/-- Where no dict lies where a record may be, only stable values and what JSON makes of
them are read back as the same. -/
theorem stable_of_both (hF : Documented F root) (hfits : Fits s d) (hapart : Apart s d)
    (hj : M.json d = some j) (hw : Written F root s d e) (hw' : Written F root s j e) :
    Stable F root s d := by
  induction hfits generalizing e j with
  | @plain t v hholds =>
    rw [Msgspec.json] at hj
    exact stable_plain hF hholds hj hw hw'
  | string d =>
    have hflat : (Schema.leaf (.primitive "string") : Schema Leaf (Scalar O)).nests d = false := by
      cases d <;> rfl
    obtain ⟨x, rfl⟩ := hF.string d e ((written_flat hflat).mp hw)
    exact Stable.leaf trivial
  | enum name symbols v =>
    obtain ⟨x, hx, hv⟩ := hF.enum name symbols _ e ((written_flat rfl).mp hw)
    cases hv
    exact Stable.leaf hx
  | @array items b xs _ ih =>
    obtain ⟨js, rfl, hjs⟩ := json_list_eq_some.mp hj
    obtain ⟨ys, rfl, hys⟩ := written_array.mp hw
    obtain ⟨ys', hsame, hys'⟩ := written_array.mp hw'
    cases hsame
    refine Stable.array b fun x hx => ?_
    obtain ⟨jx, y, hjson, hwx, hwj⟩ := forall₂_beside hys hjs hys' hx
    cases hapart with
    | list _ hall => exact ih x hx (hall items (Branch.self _) x hx) hjson hwx hwj
  | @map values es hnodup _ ih =>
    obtain ⟨js, rfl, hjs⟩ := json_dict_eq_some.mp hj
    obtain ⟨-, ys, rfl, hys⟩ := written_map.mp hw
    obtain ⟨-, ys', hsame, hys'⟩ := written_map.mp hw'
    cases hsame
    refine Stable.map hnodup fun x hx => ?_
    obtain ⟨jx, y, hjson, hwx, hwj⟩ := forall₂_beside hys hjs hys' hx
    cases hapart with
    | dict _ hall => exact ih x hx (hall values (Branch.self _) x hx) hjson.2 hwx.2 hwj.2
  | keyed values o =>
    rw [written_flat rfl, hF.map] at hw
    cases hw
  | record name fields o =>
    rw [written_flat rfl, hF.record] at hw
    cases hw
  | reference name o =>
    obtain ⟨s, hresolve, hw⟩ := written_reference.mp hw
    rcases hF.resolve _ _ hresolve with ⟨name, fields, rfl⟩ | ⟨name, symbols, rfl⟩
    · rw [written_flat rfl, hF.record] at hw
      cases hw
    · obtain ⟨x, -, hx⟩ := hF.enum _ _ _ _ ((written_flat rfl).mp hw)
      cases hx
  | union d hgen =>
    obtain ⟨b, hb, hwb⟩ := written_union.mp hw
    obtain ⟨b', hb', hwb'⟩ := written_union.mp hw'
    obtain ⟨hmem, hvalid⟩ := hF.choose _ _ _ hgen hb
    obtain ⟨hmem', hvalid'⟩ := hF.choose _ _ _ hgen hb'
    have hdates := datesOnly_of_reads hF ⟨hgen b hmem, hvalid, hwb⟩ ⟨hgen b' hmem', hvalid', hwb'⟩
      hj (hapart.branch hmem) (hapart.branch hmem')
    rw [json_datesOnly hdates] at hj
    cases hj
    exact Stable.union hdates hw hw'

/-- The leaf is no timestamp. -/
def Untimed (l : Leaf) : Prop :=
  Attributes.get l "logicalType" ∉ [some "timestamp-millis", some "timestamp-micros"]

theorem untimed_of_takes (h : Takes l v) : Untimed l := by
  cases l with
  | primitive name => simp [Untimed, Attributes.get]
  | enum name symbols => simp [Untimed, Attributes.get]
  | logical type logicalType => cases v <;> cases h

theorem untimed_leafOf {t : PlainType} (h : t ≠ .datetime) : Untimed (leafOf t) := by
  unfold Untimed
  cases t <;> first | exact absurd rfl h | decide

theorem fits_cases (h : Fits s d) :
    (∃ t, s = .leaf (leafOf .datetime) ∧ d = .scalar (.datetime t)) ∨
      ∀ l, s = .leaf l → Untimed l := by
  cases h with
  | @plain t v hholds =>
    by_cases ht : t = .datetime
    · subst ht
      cases v with
      | datetime t => exact Or.inl ⟨t, rfl, rfl⟩
      | _ => cases hholds
    · refine Or.inr fun l hl => ?_
      cases hl
      exact untimed_leafOf ht
  | string d =>
    refine Or.inr fun l hl => ?_
    cases hl
    exact untimed_leafOf (t := .str) (by simp)
  | enum name symbols v =>
    refine Or.inr fun l hl => ?_
    cases hl
    simp [Untimed, Attributes.get]
  | _ => exact Or.inr fun l hl => by cases hl

theorem prepareValue_fits (h : Fits s d) : prepareValue (some s) d = d := by
  rcases fits_cases h with ⟨t, rfl, rfl⟩ | huntimed
  · rfl
  · exact prepareValue_self huntimed

theorem prepareValue_stable (h : Stable F root s d) : prepareValue (some s) j = j := by
  apply prepareValue_self
  rintro l rfl
  cases h with
  | leaf htakes => exact untimed_of_takes htakes
  | date d => exact untimed_leafOf (by simp)

/-- The text of a time is prepared to the time that it gives. -/
theorem prepareValue_time {x : String} {u : Datetime} (h : parseIsoDatetime x = some u) :
    prepareValue (some (.leaf (leafOf .datetime))) (.scalar (.str x) : Datum (Scalar O)) =
      .scalar (.datetime u) := by
  have hlogical : Attributes.get (leafOf .datetime) "logicalType" = some "timestamp-micros" := rfl
  simp [prepareValue, hlogical, h]

theorem prepareValue_notTime {x : String} (h : parseIsoDatetime x = none) :
    prepareValue (some (.leaf (leafOf .datetime))) (.scalar (.str x) : Datum (Scalar O)) =
      .scalar (.str x) := by
  have hlogical : Attributes.get (leafOf .datetime) "logicalType" = some "timestamp-micros" := rfl
  simp [prepareValue, hlogical, h]

/-- Times that differ in their `fold` only are read back as the same. -/
theorem write_fold (hF : Documented F root) {t u : Datetime}
    (h : u.civil = { t.civil with ambiguous := false }) :
    F.write (.leaf (leafOf .datetime)) (.scalar (.datetime u)) =
      F.write (.leaf (leafOf .datetime)) (.scalar (.datetime t)) := by
  cases ho : t.civil.utcoffset with
  | none =>
    have hsame : u = t := by
      obtain ⟨c, hc⟩ := t
      obtain ⟨c', hc'⟩ := u
      obtain rfl : c' = _ := h
      have hfold := hc.ambiguous ho
      congr
      rw [← hfold]
    rw [hsame]
  | some o =>
    have hu : u.civil.utcoffset = some o := by
      rw [h]
      exact ho
    rw [hF.utc u o hu, hF.utc t o ho, utc_fold h]

/-- What the field needs for both paths. -/
def KeepsField (F : Fastavro Leaf (Scalar O)) (root s : Schema Leaf (Scalar O))
    (d : Datum (Scalar O)) : Prop :=
  Stable F root s d ∨ KeptTime F s d

theorem field_both (hF : Documented F root) (h : KeepsField F root s d) :
    ∃ j e, M.json d = some j ∧ Written F root s d e ∧
      Written F root s (prepareValue (some s) j) e := by
  rcases h with hstable | hkept
  · obtain ⟨j, e, hj, hw, hw'⟩ := stable_both (M := M) hF hstable
    refine ⟨j, e, hj, hw, ?_⟩
    rwa [prepareValue_stable hstable]
  · cases hkept with
    | @intro t e hwrite hminutes =>
      obtain ⟨u, hu, hcivil⟩ := reparsed_of_minutes hminutes
      refine ⟨.scalar (.str (rfc3339 t.civil)), e, rfl, Written.flat rfl hwrite, ?_⟩
      rw [prepareValue_time hu, written_flat rfl, write_fold hF hcivil]
      exact hwrite

theorem keptTime_of_both (hF : Documented F root) {t : Datetime}
    (hw : Written F root (.leaf (leafOf .datetime)) (.scalar (.datetime t)) e)
    (hw' : Written F root (.leaf (leafOf .datetime))
      (prepareValue (some (.leaf (leafOf .datetime))) (.scalar (.str (rfc3339 t.civil)))) e) :
    KeptTime F (.leaf (leafOf .datetime)) (.scalar (.datetime t)) := by
  rw [written_flat rfl] at hw
  refine KeptTime.intro hw fun o ho => ?_
  cases hu : parseIsoDatetime (rfc3339 t.civil) with
  | none =>
    rw [prepareValue_notTime hu] at hw'
    exact (not_written_text hF (by simp) hw').elim
  | some u =>
    rw [prepareValue_time hu, written_flat rfl] at hw'
    have hoffset : u.civil.utcoffset = some (roundedOffset o) := by
      rw [parseIsoDatetime_rfc3339, ho] at hu
      rw [datetime_eq_some hu]
      rfl
    rw [hF.utc t o ho] at hw
    rw [hF.utc u _ hoffset] at hw'
    obtain ⟨w, hwt, rfl⟩ := Option.map_eq_some_iff.mp hw
    obtain ⟨w', hwu, hsame⟩ := Option.map_eq_some_iff.mp hw'
    cases hsame
    exact minutes_of_reparsed hu ho hwt hwu

theorem field_of_both (hF : Documented F root) (hfits : Fits s d) (hapart : Apart s d)
    (hj : M.json d = some j) (hw : Written F root s d e)
    (hw' : Written F root s (prepareValue (some s) j) e) : KeepsField F root s d := by
  rcases fits_cases hfits with ⟨t, rfl, rfl⟩ | huntimed
  · cases hj
    exact Or.inr (keptTime_of_both hF hw hw')
  · rw [prepareValue_self huntimed] at hw'
    exact Or.inl (stable_of_both hF hfits hapart hj hw hw')

end Taas.StableValues
