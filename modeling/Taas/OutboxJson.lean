import Taas.SchemaRegistryEncoder

/-!
The JSON column of the outbox: what msgspec makes of the data of an event, and what is read back.
A date comes back as its ISO text, and a time as an RFC 3339 text, which `_parse_iso_datetime`
reads.
-/
namespace Taas.OutboxJson

open AvroData Python SchemaRegistryEncoder

variable {L O : Type} [Attributes L]

/-- The texts that msgspec writes, and what other objects are read back as, none for one that it
does not encode. -/
structure Msgspec (O : Type) where
  base64 : ByteArray → String
  time : ℕ → Option ℤ → String
  object : Bool → O → Option (Datum (Scalar O))

/-- A scalar after `decode(encode(v))`. -/
def Msgspec.scalar (M : Msgspec O) : Scalar O → Option (Datum (Scalar O))
  | .none => some (.scalar .none)
  | .bool b => some (.scalar (.bool b))
  | .int n => some (.scalar (.int n))
  | .float x => some (.scalar (.float x))
  | .notFinite => some (.scalar .none)
  | .str s => some (.scalar (.str s))
  | .bytes b => some (.scalar (.str (M.base64 b)))
  | .datetime t => some (.scalar (.str (rfc3339 t.civil)))
  | .date d => some (.scalar (.str d.isoformat))
  | .time microseconds utcoffset => some (.scalar (.str (M.time microseconds utcoffset)))
  | .object isDict o => M.object isDict o

mutual

/-- A value after `decode(encode(v))`. -/
def Msgspec.json (M : Msgspec O) : Datum (Scalar O) → Option (Datum (Scalar O))
  | .scalar v => M.scalar v
  | .list _ items => (M.jsonList items).map (.list true)
  | .dict entries => (M.jsonEntries entries).map .dict

def Msgspec.jsonList (M : Msgspec O) : List (Datum (Scalar O)) → Option (List (Datum (Scalar O)))
  | [] => some []
  | d :: items => (M.json d).bind fun d' => (M.jsonList items).map fun items' => d' :: items'

def Msgspec.jsonEntries (M : Msgspec O) :
    List (String × Datum (Scalar O)) → Option (List (String × Datum (Scalar O)))
  | [] => some []
  | (k, d) :: entries =>
    (M.json d).bind fun d' => (M.jsonEntries entries).map fun entries' => (k, d') :: entries'

end

/-- The scalars that JSON has. -/
def Plain : Scalar O → Prop
  | .none | .bool _ | .int _ | .float _ | .str _ => True
  | _ => False

/-- JSON leaves the value as it is, with all that is in it, but for dates. -/
inductive DatesOnly : Datum (Scalar O) → Prop
  | scalar {v : Scalar O} : Plain v → DatesOnly (.scalar v)
  | date (d : Date) : DatesOnly (.scalar (.date d))
  | list {xs : List (Datum (Scalar O))} : (∀ x ∈ xs, DatesOnly x) → DatesOnly (.list true xs)
  | dict {es : List (String × Datum (Scalar O))} :
      (∀ x ∈ es, DatesOnly x.2) → DatesOnly (.dict es)

mutual

/-- The value with the texts of its dates. -/
def isoDates : Datum (Scalar O) → Datum (Scalar O)
  | .scalar (.date d) => .scalar (.str d.isoformat)
  | .scalar v => .scalar v
  | .list b items => .list b (isoDatesList items)
  | .dict entries => .dict (isoDatesEntries entries)

def isoDatesList : List (Datum (Scalar O)) → List (Datum (Scalar O))
  | [] => []
  | d :: items => isoDates d :: isoDatesList items

def isoDatesEntries : List (String × Datum (Scalar O)) → List (String × Datum (Scalar O))
  | [] => []
  | (k, d) :: entries => (k, isoDates d) :: isoDatesEntries entries

end

variable {M : Msgspec O} {xs ys : List (Datum (Scalar O))}
  {es es' : List (String × Datum (Scalar O))} {d : Datum (Scalar O)} {v : Scalar O}

theorem jsonList_eq_some :
    M.jsonList xs = some ys ↔ List.Forall₂ (fun x y => M.json x = some y) xs ys := by
  induction xs generalizing ys with
  | nil => simp [Msgspec.jsonList, eq_comm]
  | cons x xs ih =>
    rw [Msgspec.jsonList, List.forall₂_cons_left_iff]
    simp only [Option.bind_eq_some_iff, Option.map_eq_some_iff]
    constructor
    · rintro ⟨y, hy, zs, hzs, rfl⟩
      exact ⟨y, zs, hy, ih.mp hzs, rfl⟩
    · rintro ⟨y, zs, hy, hzs, rfl⟩
      exact ⟨y, hy, zs, ih.mpr hzs, rfl⟩

theorem jsonEntries_eq_some : M.jsonEntries es = some es' ↔
    List.Forall₂ (fun x y => y.1 = x.1 ∧ M.json x.2 = some y.2) es es' := by
  induction es generalizing es' with
  | nil => simp [Msgspec.jsonEntries, eq_comm]
  | cons x es ih =>
    rw [Msgspec.jsonEntries, List.forall₂_cons_left_iff]
    simp only [Option.bind_eq_some_iff, Option.map_eq_some_iff]
    constructor
    · rintro ⟨y, hy, zs, hzs, rfl⟩
      exact ⟨(x.1, y), zs, ⟨rfl, hy⟩, ih.mp hzs, rfl⟩
    · rintro ⟨⟨k, y⟩, zs, ⟨hk, hy⟩, hzs, rfl⟩
      obtain rfl : k = x.1 := hk
      exact ⟨y, hy, zs, ih.mpr hzs, rfl⟩

theorem json_list_eq_some {b : Bool} : M.json (.list b xs) = some d ↔
    ∃ ys, d = .list true ys ∧ List.Forall₂ (fun x y => M.json x = some y) xs ys := by
  rw [Msgspec.json]
  simp only [Option.map_eq_some_iff, jsonList_eq_some]
  constructor
  · rintro ⟨ys, hys, rfl⟩
    exact ⟨ys, rfl, hys⟩
  · rintro ⟨ys, rfl, hys⟩
    exact ⟨ys, hys, rfl⟩

theorem json_dict_eq_some : M.json (.dict es) = some d ↔
    ∃ es', d = .dict es' ∧
      List.Forall₂ (fun x y => y.1 = x.1 ∧ M.json x.2 = some y.2) es es' := by
  rw [Msgspec.json]
  simp only [Option.map_eq_some_iff, jsonEntries_eq_some]
  constructor
  · rintro ⟨es', hes', rfl⟩
    exact ⟨es', rfl, hes'⟩
  · rintro ⟨es', rfl, hes'⟩
    exact ⟨es', hes', rfl⟩

theorem scalar_plain (h : Plain v) : M.scalar v = some (.scalar v) := by
  cases v <;> first | rfl | cases h

theorem isoDates_plain (h : Plain v) : isoDates (.scalar v) = .scalar v := by
  cases v <;> first | rfl | cases h

theorem isoDatesList_eq (xs : List (Datum (Scalar O))) : isoDatesList xs = xs.map isoDates := by
  induction xs with
  | nil => rfl
  | cons x xs ih => rw [isoDatesList, ih, List.map_cons]

theorem isoDatesEntries_eq (es : List (String × Datum (Scalar O))) :
    isoDatesEntries es = es.map fun x => (x.1, isoDates x.2) := by
  induction es with
  | nil => rfl
  | cons x es ih => rw [isoDatesEntries, ih, List.map_cons]

/-- What JSON has but for dates comes back with their texts. -/
theorem json_datesOnly (h : DatesOnly d) : M.json d = some (isoDates d) := by
  induction h with
  | scalar hplain =>
    rw [Msgspec.json, isoDates_plain hplain]
    exact scalar_plain hplain
  | date d => rfl
  | list _ ih =>
    refine json_list_eq_some.mpr ⟨_, rfl, ?_⟩
    rw [isoDatesList_eq, List.forall₂_map_right_iff]
    exact List.forall₂_same.mpr ih
  | dict _ ih =>
    refine json_dict_eq_some.mpr ⟨_, rfl, ?_⟩
    rw [isoDatesEntries_eq, List.forall₂_map_right_iff]
    exact List.forall₂_same.mpr fun x hx => ⟨rfl, ih x hx⟩

theorem flatMap_expandZ {cs : List Char} (h : 'Z' ∉ cs) : cs.flatMap expandZ = cs := by
  induction cs with
  | nil => rfl
  | cons c cs ih =>
    rw [List.mem_cons, not_or] at h
    rw [List.flatMap_cons, ih h.2, expandZ, if_neg (Ne.symm h.1)]
    rfl

theorem not_mem_digits {width n : ℕ} : 'Z' ∉ digitsOf width n := by
  intro h
  cases isDigit_of_mem h

theorem not_mem_dateText (c : Civil) : 'Z' ∉ dateText c := by
  simp [dateText, not_mem_digits]

theorem not_mem_timeText (c : Civil) : 'Z' ∉ timeText c := by
  unfold timeText
  split <;> simp [not_mem_digits]

/-- The text of a time without its offset. -/
theorem not_mem_local (c : Civil) : 'Z' ∉ dateText c ++ 'T' :: timeText c := by
  simp [not_mem_dateText, not_mem_timeText]

theorem not_mem_offsetText {o : ℤ} (h : ¬ (0 ≤ o ∧ o < 1000000)) : 'Z' ∉ offsetText o := by
  unfold offsetText
  rw [if_neg h]
  split <;> simp [not_mem_digits]

theorem rfc3339_split (c : Civil) : (rfc3339 c).toList =
    (dateText c ++ 'T' :: timeText c) ++ c.utcoffset.elim [] offsetText := by
  simp [rfc3339]

/-- The text of an offset of zero is `Z`, and expanded that of a second. -/
theorem expandZ_zulu {o : ℤ} (h : 0 ≤ o ∧ o < 1000000) :
    (offsetText o).flatMap expandZ = offsetText 1000000 := by
  rw [offsetText, if_pos h]
  rfl

theorem replaceZ_zulu {c : Civil} {o : ℤ} (ho : c.utcoffset = some o)
    (hzero : 0 ≤ o ∧ o < 1000000) :
    replaceZ (rfc3339 c) = rfc3339 { c with utcoffset := some 1000000 } := by
  rw [replaceZ, rfc3339_split, List.flatMap_append, flatMap_expandZ (not_mem_local c), ho,
    Option.elim_some, expandZ_zulu hzero]
  simp [rfc3339, dateText, timeText]

theorem replaceZ_other {c : Civil} (h : ∀ o, c.utcoffset = some o → ¬ (0 ≤ o ∧ o < 1000000)) :
    replaceZ (rfc3339 c) = rfc3339 c := by
  have hoffset : 'Z' ∉ c.utcoffset.elim [] offsetText := by
    cases ho : c.utcoffset with
    | none => exact List.not_mem_nil
    | some o => exact not_mem_offsetText (h o ho)
  rw [replaceZ, rfc3339_split, List.flatMap_append, flatMap_expandZ (not_mem_local c),
    flatMap_expandZ hoffset, ← rfc3339_split, String.ofList_toList]

/-- `_parse_iso_datetime` reads back the text of a time, with the offset rounded to minutes. -/
theorem parseIsoDatetime_rfc3339 (t : Datetime) : parseIsoDatetime (rfc3339 t.civil) =
    datetime { t.civil with
      utcoffset := t.civil.utcoffset.map roundedOffset
      ambiguous := false } := by
  unfold parseIsoDatetime
  by_cases hzulu : ∃ o, t.civil.utcoffset = some o ∧ 0 ≤ o ∧ o < 1000000
  · obtain ⟨o, ho, hzero⟩ := hzulu
    have hvalid : Civil.Valid { t.civil with utcoffset := some 1000000 } :=
      { t.valid with utcoffset := by simp, ambiguous := by simp }
    have hround : roundedOffset o = roundedOffset 1000000 := by
      have hseconds : o / 1000000 = 0 := by omega
      have hsign : ¬ o < 0 := by omega
      simp [roundedOffset, offsetMinutes, hseconds, hsign]
    rw [replaceZ_zulu ho hzero, ho, Option.map_some, hround]
    exact fromisoformat_rfc3339 ⟨_, hvalid⟩
  · push Not at hzulu
    rw [replaceZ_other fun o ho hzero => (hzulu o ho hzero.1).not_gt hzero.2]
    exact fromisoformat_rfc3339 t

/-- A time whose offset is in whole minutes comes back, but for its `fold`. -/
theorem reparsed_of_minutes {t : Datetime}
    (h : ∀ o, t.civil.utcoffset = some o → o % 60000000 = 0) :
    ∃ u, parseIsoDatetime (rfc3339 t.civil) = some u ∧
      u.civil = { t.civil with ambiguous := false } := by
  have hsame : t.civil.utcoffset.map roundedOffset = t.civil.utcoffset := by
    cases ho : t.civil.utcoffset with
    | none => rfl
    | some o => rw [Option.map_some, roundedOffset_of_minutes (h o ho)]
  have hvalid : Civil.Valid { t.civil with ambiguous := false } :=
    { t.valid with ambiguous := fun _ => rfl }
  refine ⟨⟨_, hvalid⟩, ?_, rfl⟩
  rw [parseIsoDatetime_rfc3339, hsame]
  exact datetime_civil ⟨_, hvalid⟩

/-- The time in UTC does not depend on `fold`. -/
theorem utc_fold {t u : Datetime} (h : u.civil = { t.civil with ambiguous := false }) :
    u.utc = t.utc := by
  simp only [Datetime.utc, h]
  rfl

/-- A time that comes back as the same instant has an offset in whole minutes. -/
theorem minutes_of_reparsed {t u w : Datetime} {o : ℤ}
    (hu : parseIsoDatetime (rfc3339 t.civil) = some u) (ho : t.civil.utcoffset = some o)
    (ht : t.utc = some w) (hw : u.utc = some w) : o % 60000000 = 0 := by
  rw [parseIsoDatetime_rfc3339, ho, Option.map_some] at hu
  have hcivil := datetime_eq_some hu
  have hoffset : u.civil.utcoffset = some (roundedOffset o) := by rw [hcivil]
  have hmicros : u.civil.micros = t.civil.micros := by
    rw [hcivil]
    rfl
  have hbefore := (micros_utc ho ht).1
  have hafter := (micros_utc hoffset hw).1
  have hround : roundedOffset o = o := by omega
  rw [← hround]
  exact roundedOffset_mod o

end Taas.OutboxJson
