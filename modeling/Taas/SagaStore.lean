import Taas.Python
import Taas.Saga
import Taas.Sql
import Taas.Transition

/-!
The saga table. `save` is an INSERT whose ON CONFLICT branch sets some of the columns:
name, business key and creation time stay those of the first save under the id. So the
store gives back what was last saved exactly when the later saves do not change them.
-/
namespace Taas.SagaStore

open Python Sql Transition Saga

/-- A JSON value. -/
inductive Json
  | null
  | bool (b : Bool)
  | number (q : ℚ)
  | string (s : String)
  | array (l : List Json)
  | object (l : List (String × Json))

/-- A dict with JSON values. -/
abbrev SagaContext := Table String Json

abbrev Instance := SagaInstance SagaContext

/-- One entry of the `steps` column. -/
structure StepValue where
  name : String
  status : String
  error : Option String

/-- What `_instance_to_values` returns. -/
structure SagaValues where
  sagaId : String
  name : String
  sagaKey : Json
  status : SagaStatus
  currentStep : Option String
  context : SagaContext
  steps : List StepValue
  lastError : Option String
  sagaCreatedAt : ℚ
  sagaUpdatedAt : ℚ

structure SagaState where
  name : String
  sagaKey : Option String
  status : SagaStatus
  currentStep : Option String
  context : SagaContext
  steps : List StepValue
  lastError : Option String
  sagaCreatedAt : ℚ
  sagaUpdatedAt : ℚ

abbrev SagaTable := Table String SagaState

def statusValue : SagaStepStatus → String
  | .pending => "pending"
  | .completed => "completed"
  | .compensated => "compensated"
  | .failed => "failed"

/-- `SagaStepStatus(value)`; other values raise. -/
def statusOfValue (value : String) : Option SagaStepStatus :=
  [SagaStepStatus.pending, .completed, .compensated, .failed].find? fun status =>
    statusValue status = value

def currentStep (saga : Instance) : Option String :=
  (saga.steps.find? fun record => record.status ≠ .completed).map SagaStepRecord.name

def lastError (saga : Instance) : Option String :=
  (saga.steps.reverse.findSome? fun record =>
    record.error.filter fun error => error ≠ "").map (prefixOf 1000)

def instanceToValues (saga : Instance) : SagaValues where
  sagaId := saga.id
  name := saga.name
  sagaKey := (saga.context.get? "saga_key").getD .null
  status := saga.status
  currentStep := currentStep saga
  context := saga.context
  steps := saga.steps.map fun s =>
    { name := s.name, status := statusValue s.status, error := s.error }
  lastError := lastError saga
  sagaCreatedAt := saga.createdAt
  sagaUpdatedAt := saga.updatedAt

/-- A text column takes NULL and strings. -/
def textOf : Json → Option (Option String)
  | .null => some none
  | .string s => some (some s)
  | _ => none

/-- The row that the INSERT builds; it raises on a key that is not a text and on a value
that is longer than its column. -/
def SagaValues.row (v : SagaValues) : Option SagaState :=
  (textOf v.sagaKey).bind fun sagaKey =>
    if v.sagaId.length ≤ 64 ∧ v.name.length ≤ 255 ∧ (sagaKey.all fun k => k.length ≤ 255) ∧
        (v.currentStep.all fun step => step.length ≤ 255) then
      some {
        name := v.name
        sagaKey := sagaKey
        status := v.status
        currentStep := v.currentStep
        context := v.context
        steps := v.steps
        lastError := v.lastError
        sagaCreatedAt := v.sagaCreatedAt
        sagaUpdatedAt := v.sagaUpdatedAt }
    else none

/-- The SET of the ON CONFLICT branch. -/
def onConflict (values row : SagaState) : SagaState :=
  { row with
    status := values.status
    currentStep := values.currentStep
    context := values.context
    steps := values.steps
    lastError := values.lastError
    sagaUpdatedAt := values.sagaUpdatedAt }

/-- Another row has this name and key; NULL keys are all different. -/
def keyTaken (t : SagaTable) (row : SagaState) : Bool :=
  t.rows.any fun x => x.2.name = row.name ∧ x.2.sagaKey = row.sagaKey ∧ row.sagaKey.isSome

/-- `save`; `none` when it raises and stores nothing. -/
def save (saga : Instance) (t : SagaTable) : Option SagaTable :=
  (instanceToValues saga).row.bind fun row =>
    if (t.get? saga.id).isSome then
      some (t.updateWhere (fun id _ => id = saga.id) (onConflict row))
    else if keyTaken t row then none
    else t.insert saga.id row

/-- One entry of `steps`, read back. -/
def recordOf (s : StepValue) : Option SagaStepRecord :=
  (statusOfValue s.status).map fun status => { name := s.name, status := status, error := s.error }

/-- `_row_to_instance`; `none` when a status is unknown. -/
def rowToInstance (id : String) (row : SagaState) : Option Instance :=
  (row.steps.mapM recordOf).map fun steps =>
    { id := id
      name := row.name
      status := row.status
      context := row.context
      steps := steps
      createdAt := row.sagaCreatedAt
      updatedAt := row.sagaUpdatedAt }

/-- `get`: the outer option is an exception, the inner one a missing row. -/
def get (id : String) (t : SagaTable) : Option (Option Instance) :=
  match t.get? id with
  | none => some none
  | some row => (rowToInstance id row).map some

def getByKey (name key : String) (t : SagaTable) : Option (Option Instance) :=
  match t.rows.find? fun x => x.2.name = name ∧ x.2.sagaKey = some key with
  | none => some none
  | some (id, row) => (rowToInstance id row).map some

/-- The calls of `save` that do not raise, one after the other. -/
def repository : System SagaTable Instance where
  init t := t = Table.empty
  next t saga := save saga t

/-- The instance first saved under an id, among the saves `l`. -/
def earliest (id : String) (l : List Instance) : Option Instance :=
  l.find? fun saga => saga.id = id

/-- The instance last saved under an id. -/
def latest (id : String) (l : List Instance) : Option Instance :=
  l.reverse.find? fun saga => saga.id = id

/-- The text under `saga_key` in the context. -/
def keyOf (saga : Instance) : Option String :=
  match saga.context.get? "saga_key" with
  | some (.string s) => some s
  | _ => none

/-- `get` returns what was last saved, and `get_by_key` an instance whose last saved state
has the name and key, if there is one. -/
structure RoundTrips (l : List Instance) (t : SagaTable) : Prop where
  get : ∀ id, get id t = some (latest id l)
  getByKey : ∀ name key, ∃ result, getByKey name key t = some result ∧
    (∀ found, result = some found →
      latest found.id l = some found ∧ found.name = name ∧ keyOf found = some key) ∧
    (result = none → ∀ id last, latest id l = some last →
      ¬ (last.name = name ∧ keyOf last = some key))

/-- What was last saved under an id has the name and creation time of the first save, and
its key when that had one; a key that came later was the first key of a saga of that name. -/
structure KeepsIdentity (l : List Instance) : Prop where
  name : ∀ id first last, earliest id l = some first → latest id l = some last →
    last.name = first.name
  createdAt : ∀ id first last, earliest id l = some first → latest id l = some last →
    last.createdAt = first.createdAt
  keeps : ∀ id first last key, earliest id l = some first → latest id l = some last →
    keyOf first = some key → keyOf last = some key
  known : ∀ id last key, latest id l = some last → keyOf last = some key →
    ∃ id' first, earliest id' l = some first ∧ first.name = last.name ∧ keyOf first = some key

variable {l : List Instance} {t t' : SagaTable} {saga first last : Instance} {id : String}
variable {row : SagaState}

def rowOf (saga : Instance) : SagaState where
  name := saga.name
  sagaKey := keyOf saga
  status := saga.status
  currentStep := currentStep saga
  context := saga.context
  steps := saga.steps.map fun s =>
    { name := s.name, status := statusValue s.status, error := s.error }
  lastError := lastError saga
  sagaCreatedAt := saga.createdAt
  sagaUpdatedAt := saga.updatedAt

theorem textOf_getD {key : Option String}
    (h : textOf ((saga.context.get? "saga_key").getD .null) = some key) : key = keyOf saga := by
  unfold keyOf
  cases hkey : saga.context.get? "saga_key" with
  | none => simpa [hkey, textOf, eq_comm] using h
  | some value => cases value <;> simp_all [textOf]

theorem row_eq_rowOf (h : (instanceToValues saga).row = some row) : row = rowOf saga := by
  obtain ⟨key, hkey, h⟩ := Option.bind_eq_some_iff.mp h
  obtain ⟨-, h⟩ := Option.ite_none_right_eq_some.mp h
  obtain rfl := Option.some.inj h
  have hkey' : key = keyOf saga := textOf_getD hkey
  simp [rowOf, instanceToValues, hkey']

/-- A save sets some columns of the row that is there, or inserts a row whose key is free. -/
theorem save_cases (h : save saga t = some t') :
    (∃ old, t.get? saga.id = some old ∧
      ∀ id, t'.get? id = if id = saga.id then some (onConflict (rowOf saga) old) else t.get? id) ∨
    (t.get? saga.id = none ∧ keyTaken t (rowOf saga) = false ∧
      ∀ id, t'.get? id = if id = saga.id then some (rowOf saga) else t.get? id) := by
  obtain ⟨row, hrow, h⟩ := Option.bind_eq_some_iff.mp h
  obtain rfl := row_eq_rowOf hrow
  cases hold : t.get? saga.id with
  | some old =>
    simp only [hold, Option.isSome_some, if_true, Option.some.injEq] at h
    subst h
    refine Or.inl ⟨old, rfl, fun id => ?_⟩
    rw [Table.get?_updateWhere]
    by_cases hid : id = saga.id
    · subst hid
      simp [hold]
    · simp [hid]
  | none =>
    simp only [hold, Option.isSome_none, Bool.false_eq_true, if_false] at h
    by_cases htaken : keyTaken t (rowOf saga) = true
    · simp [htaken] at h
    · simp only [htaken] at h
      exact Or.inr ⟨rfl, by simpa using htaken, (Table.insert_eq_some h).2⟩

theorem statusOfValue_value (status : SagaStepStatus) :
    statusOfValue (statusValue status) = some status := by
  cases status <;> decide

theorem mapM_recordOf (steps : List SagaStepRecord) :
    (steps.map fun s => (⟨s.name, statusValue s.status, s.error⟩ : StepValue)).mapM recordOf =
      some steps := by
  induction steps with
  | nil => rfl
  | cons s steps ih =>
    rw [List.map_cons, List.mapM_cons, ih]
    simp [recordOf, statusOfValue_value]

theorem rowToInstance_onConflict (hid : last.id = id) :
    rowToInstance id (onConflict (rowOf last) (rowOf first)) =
      some { last with name := first.name, createdAt := first.createdAt } := by
  subst hid
  simp only [rowToInstance, onConflict, rowOf, mapM_recordOf, Option.map_some]

theorem earliest_concat : earliest id (l ++ [saga]) =
    (earliest id l).or (if saga.id = id then some saga else none) := by
  simp [earliest, List.find?_append, List.find?_singleton]

theorem latest_concat : latest id (l ++ [saga]) =
    if saga.id = id then some saga else latest id l := by
  unfold latest
  rw [List.reverse_concat]
  by_cases hid : saga.id = id <;> simp [hid]

theorem earliest_eq_none_iff : earliest id l = none ↔ latest id l = none := by
  simp [earliest, latest, List.find?_eq_none]

theorem id_of_latest (h : latest id l = some last) : last.id = id := by
  simpa using List.find?_some h

theorem exists_earliest (h : latest id l = some last) : ∃ first, earliest id l = some first := by
  apply Option.ne_none_iff_exists'.mp
  rw [ne_eq, earliest_eq_none_iff, h]
  simp

theorem exists_latest (h : earliest id l = some first) : ∃ last, latest id l = some last := by
  apply Option.ne_none_iff_exists'.mp
  rw [ne_eq, ← earliest_eq_none_iff, h]
  simp

/-- Each row has the identity of the first save and the state of the last, and no two rows
have the same name and key. -/
structure Holds (l : List Instance) (t : SagaTable) : Prop where
  missing : ∀ id, latest id l = none → t.get? id = none
  row : ∀ id first last, earliest id l = some first → latest id l = some last →
    t.get? id = some (onConflict (rowOf last) (rowOf first))
  unique : ∀ i j p q key, t.get? i = some p → t.get? j = some q → p.name = q.name →
    p.sagaKey = some key → q.sagaKey = some key → i = j

/-- A save that sets the row of one id to what the saves so far ask for. -/
theorem holds_of_get {new : SagaState} (hi : Holds l t)
    (hget : ∀ id, t'.get? id = if id = saga.id then some new else t.get? id)
    (hnew : ∀ first, earliest saga.id (l ++ [saga]) = some first →
      new = onConflict (rowOf saga) (rowOf first))
    (hunique : ∀ i j p q key, t'.get? i = some p → t'.get? j = some q → p.name = q.name →
      p.sagaKey = some key → q.sagaKey = some key → i = j) : Holds (l ++ [saga]) t' := by
  constructor
  · intro id hlast
    rw [latest_concat] at hlast
    rw [hget]
    by_cases hid : saga.id = id
    · simp [hid] at hlast
    · rw [if_neg (Ne.symm hid)]
      rw [if_neg hid] at hlast
      exact hi.missing id hlast
  · intro id first last hfirst hlast
    rw [latest_concat] at hlast
    rw [hget]
    by_cases hid : saga.id = id
    · subst hid
      rw [if_pos rfl] at hlast ⊢
      obtain rfl := Option.some.inj hlast
      rw [hnew first hfirst]
    · rw [earliest_concat, if_neg hid, Option.or_none] at hfirst
      rw [if_neg hid] at hlast
      rw [if_neg (Ne.symm hid)]
      exact hi.row id first last hfirst hlast
  · exact hunique

theorem holds_conflict {old : SagaState} (hi : Holds l t) (hold : t.get? saga.id = some old)
    (hget : ∀ id, t'.get? id =
      if id = saga.id then some (onConflict (rowOf saga) old) else t.get? id) :
    Holds (l ++ [saga]) t' := by
  have hsame : ∀ i p', t'.get? i = some p' →
      ∃ p, t.get? i = some p ∧ p.name = p'.name ∧ p.sagaKey = p'.sagaKey := by
    intro i p' hp
    rw [hget] at hp
    by_cases hid : i = saga.id
    · subst hid
      rw [if_pos rfl] at hp
      obtain rfl := Option.some.inj hp
      exact ⟨old, hold, rfl, rfl⟩
    · rw [if_neg hid] at hp
      exact ⟨p', hp, rfl, rfl⟩
  apply holds_of_get hi hget
  · intro first hfirst
    obtain ⟨last, hlast⟩ : ∃ last, latest saga.id l = some last := by
      apply Option.ne_none_iff_exists'.mp
      intro hnone
      rw [hi.missing _ hnone] at hold
      cases hold
    obtain ⟨first', hfirst'⟩ := exists_earliest hlast
    rw [earliest_concat, hfirst', Option.some_or] at hfirst
    obtain rfl := Option.some.inj hfirst
    rw [hi.row _ _ _ hfirst' hlast] at hold
    obtain rfl := Option.some.inj hold
    rfl
  · intro i j p' q' key hp hq hname hpk hqk
    obtain ⟨p, hp, hpn, hpk'⟩ := hsame i p' hp
    obtain ⟨q, hq, hqn, hqk'⟩ := hsame j q' hq
    exact hi.unique i j p q key hp hq (by rw [hpn, hqn, hname]) (by rw [hpk', hpk])
      (by rw [hqk', hqk])

theorem holds_insert (hi : Holds l t) (hnone : t.get? saga.id = none)
    (hfree : keyTaken t (rowOf saga) = false)
    (hget : ∀ id, t'.get? id = if id = saga.id then some (rowOf saga) else t.get? id) :
    Holds (l ++ [saga]) t' := by
  have hother : ∀ i p key, t.get? i = some p → p.name = (rowOf saga).name →
      p.sagaKey = some key → (rowOf saga).sagaKey ≠ some key := by
    intro i p key hp hname hpk hkey
    have htaken : keyTaken t (rowOf saga) = true := by
      apply List.any_eq_true.mpr
      exact ⟨(i, p), (t.mem_rows_iff i p).mpr hp, by simp [hname, hpk, hkey]⟩
    rw [hfree] at htaken
    cases htaken
  apply holds_of_get hi hget
  · intro first hfirst
    have hnever : earliest saga.id l = none := by
      rw [earliest_eq_none_iff]
      cases hlast : latest saga.id l with
      | none => rfl
      | some last =>
        obtain ⟨before, hbefore⟩ := exists_earliest hlast
        rw [hi.row _ _ _ hbefore hlast] at hnone
        cases hnone
    rw [earliest_concat, hnever, if_pos rfl, Option.none_or] at hfirst
    obtain rfl := Option.some.inj hfirst
    rfl
  · intro i j p q key hp hq hname hpk hqk
    rw [hget] at hp hq
    by_cases hii : i = saga.id
    · by_cases hjj : j = saga.id
      · rw [hii, hjj]
      · rw [if_pos hii] at hp
        rw [if_neg hjj] at hq
        obtain rfl := Option.some.inj hp
        exact absurd hpk (hother j q key hq hname.symm hqk)
    · rw [if_neg hii] at hp
      by_cases hjj : j = saga.id
      · rw [if_pos hjj] at hq
        obtain rfl := Option.some.inj hq
        exact absurd hqk (hother i p key hp hname hpk)
      · rw [if_neg hjj] at hq
        exact hi.unique i j p q key hp hq hname hpk hqk

theorem holds_save (hi : Holds l t) (h : save saga t = some t') : Holds (l ++ [saga]) t' := by
  rcases save_cases h with ⟨old, hold, hget⟩ | ⟨hnone, hfree, hget⟩
  · exact holds_conflict hi hold hget
  · exact holds_insert hi hnone hfree hget

theorem holds_of_trace (h : Trace repository free l t) : Holds l t := by
  refine Trace.induct (M := repository) (I := Holds) ?_ ?_ l t h
  · intro t ht
    have hempty : t = Table.empty := ht
    subst hempty
    constructor
    · intro id _
      exact Table.get?_empty id
    · intro id first last hfirst
      cases hfirst
    · intro i j p q key hp
      simp [Table.get?_empty] at hp
  · intro l t saga t' _ hi _ hsave
    exact holds_save hi hsave

theorem get_of_latest (hi : Holds l t) (hfirst : earliest id l = some first)
    (hlast : latest id l = some last) :
    get id t = some (some { last with name := first.name, createdAt := first.createdAt }) := by
  rw [get, hi.row id first last hfirst hlast]
  simp [rowToInstance_onConflict (id_of_latest hlast)]

theorem get_of_missing (hi : Holds l t) (hlast : latest id l = none) : get id t = some none := by
  rw [get, hi.missing id hlast]

/-- `get_by_key` finds the row whose first save had the name and key. -/
theorem getByKey_of_first (hi : Holds l t) {key : String} (hfirst : earliest id l = some first)
    (hlast : latest id l = some last) (hkey : keyOf first = some key) :
    getByKey first.name key t =
      some (some { last with name := first.name, createdAt := first.createdAt }) := by
  have hrow := hi.row id first last hfirst hlast
  have hmem := (t.mem_rows_iff id _).mpr hrow
  cases hfind : t.rows.find? fun x => x.2.name = first.name ∧ x.2.sagaKey = some key with
  | none =>
    have := List.find?_eq_none.mp hfind _ hmem
    simp [onConflict, rowOf, hkey] at this
  | some x =>
    obtain ⟨j, q⟩ := x
    have hq := (t.mem_rows_iff j q).mp (List.mem_of_find?_eq_some hfind)
    have hmatch : q.name = first.name ∧ q.sagaKey = some key := by
      simpa using List.find?_some hfind
    obtain rfl : id = j := hi.unique id j _ q key hrow hq hmatch.1.symm hkey hmatch.2
    obtain rfl : onConflict (rowOf last) (rowOf first) = q := by
      simpa [hrow] using hq
    rw [getByKey, hfind]
    simp [rowToInstance_onConflict (id_of_latest hlast)]

theorem getByKey_cases (hi : Holds l t) (name key : String) :
    (getByKey name key t = some none ∧
      ∀ id first, earliest id l = some first → ¬ (first.name = name ∧ keyOf first = some key)) ∨
    ∃ id first last, earliest id l = some first ∧ latest id l = some last ∧ first.name = name ∧
      keyOf first = some key := by
  by_cases h : ∃ id first, earliest id l = some first ∧ first.name = name ∧ keyOf first = some key
  · obtain ⟨id, first, hfirst, hname, hkey⟩ := h
    obtain ⟨last, hlast⟩ := exists_latest hfirst
    exact Or.inr ⟨id, first, last, hfirst, hlast, hname, hkey⟩
  · refine Or.inl ⟨?_, fun id first hfirst hmatch => h ⟨id, first, hfirst, hmatch⟩⟩
    have hnone : (t.rows.find? fun x => x.2.name = name ∧ x.2.sagaKey = some key) = none := by
      apply List.find?_eq_none.mpr
      intro x hx hmatch
      obtain ⟨j, q⟩ := x
      have hq := (t.mem_rows_iff j q).mp hx
      cases hlast : latest j l with
      | none =>
        rw [hi.missing j hlast] at hq
        cases hq
      | some last =>
        obtain ⟨first, hfirst⟩ := exists_earliest hlast
        rw [hi.row j first last hfirst hlast] at hq
        obtain rfl := Option.some.inj hq
        apply h
        exact ⟨j, first, hfirst, decide_eq_true_eq.mp hmatch⟩
    rw [getByKey, hnone]

/-- After any saves the store gives back what was last saved exactly when the identities
were kept. -/
theorem round_trips_iff (h : Trace repository free l t) : RoundTrips l t ↔ KeepsIdentity l := by
  have hi := holds_of_trace h
  constructor
  · intro hrt
    have hsame : ∀ id first last, earliest id l = some first → latest id l = some last →
        last = { last with name := first.name, createdAt := first.createdAt } := by
      intro id first last hfirst hlast
      have hget := hrt.get id
      rw [get_of_latest hi hfirst hlast, hlast] at hget
      exact (Option.some.inj (Option.some.inj hget)).symm
    constructor
    · intro id first last hfirst hlast
      rw [hsame id first last hfirst hlast]
    · intro id first last hfirst hlast
      rw [hsame id first last hfirst hlast]
    · intro id first last key hfirst hlast hkey
      obtain ⟨result, hresult, hfound, -⟩ := hrt.getByKey first.name key
      rw [getByKey_of_first hi hfirst hlast hkey] at hresult
      obtain ⟨-, -, hkey'⟩ := hfound _ (Option.some.inj hresult).symm
      exact hkey'
    · intro id last key hlast hkey
      obtain ⟨result, hresult, -, hnone⟩ := hrt.getByKey last.name key
      rcases getByKey_cases hi last.name key with ⟨hmissed, -⟩ | ⟨id', first, _, hfirst, _, hmatch⟩
      · rw [hmissed] at hresult
        exact absurd ⟨rfl, hkey⟩ (hnone (Option.some.inj hresult).symm id last hlast)
      · exact ⟨id', first, hfirst, hmatch⟩
  · intro hkeeps
    have hsame : ∀ id first last, earliest id l = some first → latest id l = some last →
        { last with name := first.name, createdAt := first.createdAt } = last := by
      intro id first last hfirst hlast
      rw [← hkeeps.name id first last hfirst hlast, ← hkeeps.createdAt id first last hfirst hlast]
    constructor
    · intro id
      cases hlast : latest id l with
      | none => exact get_of_missing hi hlast
      | some last =>
        obtain ⟨first, hfirst⟩ := exists_earliest hlast
        rw [get_of_latest hi hfirst hlast, hsame id first last hfirst hlast]
    · intro name key
      rcases getByKey_cases hi name key with ⟨hmissed, hnot⟩ |
          ⟨id, first, last, hfirst, hlast, rfl, hkey⟩
      · refine ⟨none, hmissed, by simp, ?_⟩
        rintro - id last hlast ⟨rfl, hkey⟩
        obtain ⟨id', first, hfirst, hmatch⟩ := hkeeps.known id last key hlast hkey
        exact hnot id' first hfirst hmatch
      · refine ⟨some last, ?_, ?_, by simp⟩
        · rw [getByKey_of_first hi hfirst hlast hkey, hsame id first last hfirst hlast]
        · rintro found hfound
          obtain rfl := Option.some.inj hfound
          have hid := id_of_latest hlast
          exact ⟨by rw [hid, hlast], hkeeps.name id first last hfirst hlast,
            hkeeps.keeps id first last key hfirst hlast hkey⟩

def deposit (status : SagaStatus) : Instance where
  id := "saga-abc"
  name := "deposit"
  status := status
  context := ⟨[("saga_key", .string "k-1")], by simp⟩
  steps := [{ name := "s1", status := .completed }]
  createdAt := 1000
  updatedAt := 1001

theorem round_trips_deposit : ∃ t, Trace repository free [deposit .running, deposit .completed] t ∧
    RoundTrips [deposit .running, deposit .completed] t := by
  have hrun : (replay repository free [] [deposit .running, deposit .completed]
      Table.empty).isSome = true := by decide
  obtain ⟨t, ht⟩ := Option.isSome_iff_exists.mp hrun
  have htrace : Trace repository free [deposit .running, deposit .completed] t :=
    trace_of_replay rfl ht
  refine ⟨t, htrace, (round_trips_iff htrace).mpr ?_⟩
  have hfirst : ∀ id first, earliest id [deposit .running, deposit .completed] = some first →
      first = deposit .running := by
    intro id first h
    by_cases hid : "saga-abc" = id <;> simp [earliest, deposit, hid] at h ⊢
    exact h.symm
  have hlast : ∀ id last, latest id [deposit .running, deposit .completed] = some last →
      last = deposit .completed := by
    intro id last h
    by_cases hid : "saga-abc" = id <;> simp [latest, deposit, hid] at h ⊢
    exact h.symm
  constructor
  · intro id first last hf hl
    rw [hfirst id first hf, hlast id last hl]
    rfl
  · intro id first last hf hl
    rw [hfirst id first hf, hlast id last hl]
    rfl
  · intro id first last key hf hl hkey
    rw [hfirst id first hf] at hkey
    rw [hlast id last hl]
    exact hkey
  · intro id last key hl hkey
    rw [hlast id last hl] at hkey ⊢
    exact ⟨"saga-abc", deposit .running, rfl, rfl, hkey⟩

def keyless : Instance :=
  { deposit .running with context := Table.empty }

/-- The key comes after the first save, so `get_by_key` does not find the saga. -/
theorem late_key_is_not_found :
    ¬ ∀ (l : List Instance) (t : SagaTable), Trace repository free l t → RoundTrips l t := by
  intro hclaim
  have h : ((replay repository free [] [keyless, deposit .running] Table.empty).map fun t =>
      (getByKey "deposit" "k-1" t).map Option.isNone) = some (some true) := by
    decide
  obtain ⟨t, ht, hmissed⟩ := Option.map_eq_some_iff.mp h
  obtain ⟨result, hresult, -, hnone⟩ :=
    (hclaim [keyless, deposit .running] t (trace_of_replay rfl ht)).getByKey "deposit" "k-1"
  rw [hresult, Option.map_some, Option.some.injEq, Option.isNone_iff_eq_none] at hmissed
  exact hnone hmissed "saga-abc" (deposit .running) rfl ⟨rfl, rfl⟩

end Taas.SagaStore
