import Mathlib.Order.Basic
import Taas.Arrangements
import Taas.Fallible
import Taas.QueryBuilder

/-!
The SELECT statements that `QueryBuilder` builds, and the rows they give. A condition on a row is
true, false or, where a column is NULL, unknown; a row is selected when its clauses are true.
-/
namespace Taas.Queries

open QueryBuilder Arrangements Fallible

variable {X D V Row O : Type}

inductive Clause (X D : Type)
  | condition (c : Condition X D)
  | all (clauses : List (Clause X D))
  | any (clauses : List (Clause X D))

/-- A SELECT of a model class. Each column of the order says whether it descends. -/
structure Select (X D : Type) where
  clauses : List (Clause X D) := []
  orderBy : List (String × Bool) := []
  limit : Option ℤ := none
  offset : Option ℤ := none

/-- `split('__', 1)`; `none` when there is no such delimiter. -/
def splitFirst : List Char → Option (List Char × List Char)
  | '_' :: '_' :: rest => some ([], rest)
  | c :: rest => (splitFirst rest).map fun x => (c :: x.1, x.2)
  | [] => none

/-- The field and the operator that a keyword names. -/
def parseKey (key : String) : String × String :=
  match splitFirst key.toList with
  | some (fieldName, operator) => (String.ofList fieldName, String.ofList operator)
  | none => (key, "eq")

abbrev Filter (X : Type) := String × Option (Value X)

/-- The condition of one filter, if it has any. -/
def filterCondition (objects : Objects X D) (attributes : List String) (filter : Filter X) :
    Except String (Option (Condition X D)) :=
  match filter.2 with
  | none => .ok none
  | some value =>
    buildSingleCondition objects attributes (parseKey filter.1).1 (parseKey filter.1).2 value

/-- The loop over the filters. -/
def conditions (objects : Objects X D) (attributes : List String) :
    List (Filter X) → Except String (List (Clause X D))
  | [] => .ok []
  | filter :: filters =>
    match filterCondition objects attributes filter with
    | .error e => .error e
    | .ok none => conditions objects attributes filters
    | .ok (some c) => (conditions objects attributes filters).map (.condition c :: ·)

def Select.filterBy (stm : Select X D) (clause : Clause X D) : Select X D :=
  { stm with clauses := stm.clauses ++ [clause] }

/-- `build_filters`. No keyword is `model_class` or `stm`, which are other parameters of it. -/
def buildFilters (objects : Objects X D) (attributes : List String) (stm : Option (Select X D))
    (kwargs : List (Filter X)) : Except String (Select X D) :=
  (conditions objects attributes kwargs).map fun conditions =>
    if conditions.isEmpty then stm.getD {} else (stm.getD {}).filterBy (.all conditions)

/-- `build_or_filters`, with the keywords of `build_filters`. -/
def buildOrFilters (objects : Objects X D) (attributes : List String) (stm : Option (Select X D))
    (kwargs : List (Filter X)) : Except String (Select X D) :=
  (conditions objects attributes kwargs).map fun conditions =>
    if conditions.isEmpty then stm.getD {} else (stm.getD {}).filterBy (.any conditions)

/-- The clause of some filters, if they give any condition. -/
def junction (objects : Objects X D) (attributes : List String)
    (join : List (Clause X D) → Clause X D) (filters : List (Filter X)) :
    Except String (List (Clause X D)) :=
  (conditions objects attributes filters).map fun conditions =>
    if conditions.isEmpty then [] else [join conditions]

/-- The loop over the groups. -/
def groupClauses (objects : Objects X D) (attributes : List String) :
    List (List (Filter X)) → Except String (List (Clause X D))
  | [] => .ok []
  | group :: groups => do
    let clause ← junction objects attributes .any group
    let clauses ← groupClauses objects attributes groups
    return clause ++ clauses

def buildFiltersAdvanced (objects : Objects X D) (attributes : List String)
    (stm : Option (Select X D)) (andFilters orFilters : List (Filter X))
    (orGroups : List (List (Filter X))) : Except String (Select X D) := do
  let ands ← junction objects attributes .all andFilters
  let ors ← junction objects attributes .any orFilters
  let groups ← groupClauses objects attributes orGroups
  let allConditions := ands ++ ors ++ groups
  return if allConditions.isEmpty then stm.getD {} else (stm.getD {}).filterBy (.all allConditions)

inductive OrderError
  | valueError
  | attributeError
  deriving DecidableEq

/-- `order_query`. Any direction but `desc` ascends. -/
def orderQuery (attributes : List String) (query : Select X D) (orderBy : String) :
    Except OrderError (Select X D) :=
  let ordered (attr : String) (desc : Bool) : Except OrderError (Select X D) :=
    if attr ∈ attributes then .ok { query with orderBy := query.orderBy ++ [(attr, desc)] }
    else .error .attributeError
  match splitFirst orderBy.toList with
  | none => ordered orderBy false
  | some (attr, order) =>
    -- more than two parts cannot be unpacked
    if (splitFirst order).isSome then .error .valueError
    else ordered (String.ofList attr) (String.ofList order = "desc")

structure PagingQueryParam where
  limit : ℤ := 25
  offset : ℤ := 0

def paginateQuery (query : Select X D) (opts : PagingQueryParam) : Select X D :=
  { query with offset := some opts.offset, limit := some opts.limit }

/-- The cells of the rows, NULL being `none`, the values that are NULL, and how cells compare with
the others. -/
structure Columns (X D V Row : Type) where
  cell : Row → String → Option V
  null : Value X → Bool
  compare : V → Value X → Ordering
  text : V → String
  onDay : V → Value X ⊕ D → Bool
  folding : Like.Folding

/-- `column IN (values)`, which is false for no values, and unknown where the cell is equal to none
of them and one is NULL. -/
def Columns.isIn (columns : Columns X D V Row) (row : Row) (field : String)
    (values : List (Value X)) : Option Bool :=
  if values.isEmpty then some false
  else (columns.cell row field).bind fun c =>
    if values.any fun v => !columns.null v && columns.compare c v == .eq then some true
    else if values.any columns.null then none
    else some false

/-- The value of a condition; `none` is unknown. -/
def Columns.eval (columns : Columns X D V Row) (row : Row) : Condition X D → Option Bool
  | .eq field value => (columns.cell row field).map fun c => columns.compare c value == .eq
  | .ne field value => (columns.cell row field).map fun c => columns.compare c value != .eq
  | .gt field value => (columns.cell row field).map fun c => columns.compare c value == .gt
  | .ge field value => (columns.cell row field).map fun c => columns.compare c value != .lt
  | .lt field value => (columns.cell row field).map fun c => columns.compare c value == .lt
  | .le field value => (columns.cell row field).map fun c => columns.compare c value != .gt
  | .isIn field values => columns.isIn row field values
  | .notIn field values => (columns.isIn row field values).map not
  | .isNull field => some (columns.cell row field).isNone
  | .isNotNull field => some (columns.cell row field).isSome
  | .like field pattern =>
    (columns.cell row field).map fun c => Like.like pattern.toList (columns.text c).toList
  | .ilike field pattern =>
    (columns.cell row field).map fun c =>
      columns.folding.ilike pattern.toList (columns.text c).toList
  | .dateIs field value => (columns.cell row field).map fun c => columns.onDay c value

/-- AND of two values, of which one may be unknown. -/
def both : Option Bool → Option Bool → Option Bool
  | some false, _ => some false
  | _, some false => some false
  | some true, some true => some true
  | _, _ => none

/-- OR of two values. -/
def either : Option Bool → Option Bool → Option Bool
  | some true, _ => some true
  | _, some true => some true
  | some false, some false => some false
  | _, _ => none

mutual

def Columns.clause (columns : Columns X D V Row) (row : Row) : Clause X D → Option Bool
  | .condition c => columns.eval row c
  | .all clauses => columns.allOf row clauses
  | .any clauses => columns.anyOf row clauses

def Columns.allOf (columns : Columns X D V Row) (row : Row) : List (Clause X D) → Option Bool
  | [] => some true
  | c :: clauses => both (columns.clause row c) (columns.allOf row clauses)

def Columns.anyOf (columns : Columns X D V Row) (row : Row) : List (Clause X D) → Option Bool
  | [] => some false
  | c :: clauses => either (columns.clause row c) (columns.anyOf row clauses)

end

/-- The WHERE of the statement is true of the row. -/
def Select.selects (columns : Columns X D V Row) (stm : Select X D) (row : Row) : Bool :=
  columns.allOf row stm.clauses == some true

variable {objects : Objects X D} {attributes : List String} {columns : Columns X D V Row}
  {stm : Option (Select X D)} {query : Select X D} {row : Row} {clauses : List (Clause X D)}
  {filters : List (Filter X)} {groups : List (List (Filter X))}

/-- The filter gives a condition, as one with no value, or of an unknown field or operator, does
not. -/
def Effective (objects : Objects X D) (attributes : List String) (filter : Filter X) : Prop :=
  ∃ c, filterCondition objects attributes filter = .ok (some c)

/-- The filter gives a condition that is true of the row. -/
def Holds (objects : Objects X D) (attributes : List String) (columns : Columns X D V Row)
    (row : Row) (filter : Filter X) : Prop :=
  ∃ c, filterCondition objects attributes filter = .ok (some c) ∧ columns.eval row c = some true

def AllHold (objects : Objects X D) (attributes : List String) (columns : Columns X D V Row)
    (row : Row) (filters : List (Filter X)) : Prop :=
  ∀ filter ∈ filters, Effective objects attributes filter →
    Holds objects attributes columns row filter

def AnyHolds (objects : Objects X D) (attributes : List String) (columns : Columns X D V Row)
    (row : Row) (filters : List (Filter X)) : Prop :=
  (∃ filter ∈ filters, Effective objects attributes filter) →
    ∃ filter ∈ filters, Holds objects attributes columns row filter

theorem both_eq_true {a b : Option Bool} :
    both a b = some true ↔ a = some true ∧ b = some true := by
  rcases a with _ | _ | _ <;> rcases b with _ | _ | _ <;> simp [both]

theorem either_eq_true {a b : Option Bool} :
    either a b = some true ↔ a = some true ∨ b = some true := by
  rcases a with _ | _ | _ <;> rcases b with _ | _ | _ <;> simp [either]

theorem allOf_eq_true :
    columns.allOf row clauses = some true ↔ ∀ c ∈ clauses, columns.clause row c = some true := by
  induction clauses with
  | nil => simp [Columns.allOf]
  | cons c clauses ih => simp [Columns.allOf, both_eq_true, ih]

theorem anyOf_eq_true :
    columns.anyOf row clauses = some true ↔ ∃ c ∈ clauses, columns.clause row c = some true := by
  induction clauses with
  | nil => simp [Columns.anyOf]
  | cons c clauses ih => simp [Columns.anyOf, either_eq_true, ih]

theorem selects_filterBy (clause : Clause X D) :
    (query.filterBy clause).selects columns row = true ↔
      query.selects columns row = true ∧ columns.clause row clause = some true := by
  simp only [Select.selects, Select.filterBy, beq_iff_eq, allOf_eq_true, List.mem_append,
    List.mem_singleton]
  constructor
  · intro h
    exact ⟨fun c hc => h c (.inl hc), h clause (.inr rfl)⟩
  · rintro ⟨hquery, hclause⟩ c (hc | rfl)
    · exact hquery c hc
    · exact hclause

/-- The loop collects the conditions of the filters that have one. -/
theorem mem_conditions (h : conditions objects attributes filters = .ok clauses) {x : Clause X D} :
    x ∈ clauses ↔ ∃ filter ∈ filters, ∃ c,
      filterCondition objects attributes filter = .ok (some c) ∧ x = .condition c := by
  induction filters generalizing clauses with
  | nil =>
    cases h
    simp
  | cons filter filters ih =>
    unfold conditions at h
    split at h
    · cases h
    · rename_i hnone
      rw [ih h]
      simp [hnone]
    · rename_i c hsome
      cases hrest : conditions objects attributes filters with
      | error e =>
        rw [hrest] at h
        cases h
      | ok rest =>
        rw [hrest] at h
        cases h
        rw [List.mem_cons, ih hrest]
        simp [hsome]

theorem isEmpty_conditions (h : conditions objects attributes filters = .ok clauses) :
    clauses.isEmpty = true ↔ ∀ filter ∈ filters, ¬Effective objects attributes filter := by
  rw [List.isEmpty_iff, List.eq_nil_iff_forall_not_mem]
  simp only [mem_conditions h, Effective]
  constructor
  · rintro hnone filter hmem ⟨c, hc⟩
    exact hnone _ ⟨filter, hmem, c, hc, rfl⟩
  · rintro hnone x ⟨filter, hmem, c, hc, -⟩
    exact hnone filter hmem ⟨c, hc⟩

theorem all_conditions (h : conditions objects attributes filters = .ok clauses) :
    columns.clause row (.all clauses) = some true ↔
      AllHold objects attributes columns row filters := by
  rw [Columns.clause, allOf_eq_true]
  simp only [mem_conditions h]
  constructor
  · rintro hall filter hmem ⟨c, hc⟩
    exact ⟨c, hc, by simpa [Columns.clause] using hall _ ⟨filter, hmem, c, hc, rfl⟩⟩
  · rintro hall x ⟨filter, hmem, c, hc, rfl⟩
    obtain ⟨c', hc', htrue⟩ := hall filter hmem ⟨c, hc⟩
    rw [hc] at hc'
    cases hc'
    simpa [Columns.clause] using htrue

theorem any_conditions (h : conditions objects attributes filters = .ok clauses) :
    columns.clause row (.any clauses) = some true ↔
      ∃ filter ∈ filters, Holds objects attributes columns row filter := by
  rw [Columns.clause, anyOf_eq_true]
  simp only [mem_conditions h]
  constructor
  · rintro ⟨x, ⟨filter, hmem, c, hc, rfl⟩, htrue⟩
    exact ⟨filter, hmem, c, hc, by simpa [Columns.clause] using htrue⟩
  · rintro ⟨filter, hmem, c, hc, htrue⟩
    exact ⟨_, ⟨filter, hmem, c, hc, rfl⟩, by simpa [Columns.clause] using htrue⟩

theorem junction_all (h : junction objects attributes .all filters = .ok clauses) :
    (∀ c ∈ clauses, columns.clause row c = some true) ↔
      AllHold objects attributes columns row filters := by
  obtain ⟨conds, hconds, rfl⟩ := map_ok h
  rw [← all_conditions hconds]
  cases hempty : conds.isEmpty with
  | true => simp [List.isEmpty_iff.mp hempty, Columns.clause, Columns.allOf]
  | false => simp

theorem junction_any (h : junction objects attributes .any filters = .ok clauses) :
    (∀ c ∈ clauses, columns.clause row c = some true) ↔
      AnyHolds objects attributes columns row filters := by
  obtain ⟨conds, hconds, rfl⟩ := map_ok h
  have hiff := isEmpty_conditions hconds
  unfold AnyHolds
  rw [← any_conditions hconds]
  cases hempty : conds.isEmpty with
  | true =>
    have hnone := hiff.mp hempty
    simp only [if_true, List.not_mem_nil, false_implies, implies_true, true_iff]
    rintro ⟨filter, hmem, heffective⟩
    exact absurd heffective (hnone filter hmem)
  | false =>
    have hsome : ∃ filter ∈ filters, Effective objects attributes filter := by
      by_contra hnone
      have htrue := hiff.mpr fun filter hmem heffective => hnone ⟨filter, hmem, heffective⟩
      rw [htrue] at hempty
      cases hempty
    simp [hsome]

theorem selects_foldl (clauses : List (Clause X D)) (query : Select X D) :
    (clauses.foldl Select.filterBy query).selects columns row = true ↔
      query.selects columns row = true ∧ ∀ c ∈ clauses, columns.clause row c = some true := by
  induction clauses generalizing query with
  | nil => simp
  | cons c clauses ih =>
    rw [List.foldl_cons, ih, selects_filterBy, List.forall_mem_cons, and_assoc]

theorem selects_joined (clauses : List (Clause X D)) (query : Select X D) :
    (if clauses.isEmpty then query else query.filterBy (.all clauses)).selects columns row =
        true ↔
      query.selects columns row = true ∧ ∀ c ∈ clauses, columns.clause row c = some true := by
  cases hempty : clauses.isEmpty with
  | true => simp [List.isEmpty_iff.mp hempty]
  | false => simp [selects_filterBy, Columns.clause, allOf_eq_true]

theorem groupClauses_any (h : groupClauses objects attributes groups = .ok clauses) :
    (∀ c ∈ clauses, columns.clause row c = some true) ↔
      ∀ group ∈ groups, AnyHolds objects attributes columns row group := by
  induction groups generalizing clauses with
  | nil =>
    cases h
    simp
  | cons group groups ih =>
    obtain ⟨clause, hclause, h⟩ := bind_ok h
    obtain ⟨rest, hrest, h⟩ := bind_ok h
    cases h
    rw [List.forall_mem_append, junction_any hclause, ih hrest, List.forall_mem_cons]

/-- With the filters of `build_filters_advanced` a row is selected when all the AND filters hold,
some OR filter does and some filter of each group does, among those that give a condition. Where
none does, nothing is asked. -/
theorem buildFiltersAdvanced_selects {andFilters orFilters : List (Filter X)}
    {orGroups : List (List (Filter X))}
    (h : buildFiltersAdvanced objects attributes stm andFilters orFilters orGroups = .ok query)
    (columns : Columns X D V Row) (row : Row) :
    query.selects columns row = true ↔ (stm.getD {}).selects columns row = true ∧
      AllHold objects attributes columns row andFilters ∧
      AnyHolds objects attributes columns row orFilters ∧
      ∀ group ∈ orGroups, AnyHolds objects attributes columns row group := by
  obtain ⟨ands, hands, h⟩ := bind_ok h
  obtain ⟨ors, hors, h⟩ := bind_ok h
  obtain ⟨groups, hgroups, h⟩ := bind_ok h
  cases h
  rw [selects_joined, List.forall_mem_append, List.forall_mem_append, junction_all hands,
    junction_any hors, groupClauses_any hgroups, and_assoc]

/-- People with an age and a number for their city. -/
def people : Columns ℕ ℕ ℕ (Option ℕ × Option ℕ) where
  cell row field := if field = "age" then row.1 else row.2
  null _ := false
  compare v
    | .object x => Ord.compare v x
    | _ => .lt
  text v := toString v
  onDay _ _ := false
  folding := .ascii

/-- The second filter is of an unknown field. -/
def ofAge : List (Filter ℕ) := [("age__gte", some (.object 18)), ("name", some (.text "Ada"))]

def ofCity : List (Filter ℕ) := [("city", some (.object 1)), ("city__isnull", some (.object 1))]

def adults : Select ℕ ℕ :=
  { clauses := [.all [.all [.condition (.ge "age" (.object 18))],
      .any [.condition (.eq "city" (.object 1)), .condition (.isNull "city")]]] }

theorem buildFiltersAdvanced_selects_adults :
    adults.selects people (some 20, none) = true ↔
      ({} : Select ℕ ℕ).selects people (some 20, none) = true ∧
        AllHold objectsOfDay ["age", "city"] people (some 20, none) ofAge ∧
        AnyHolds objectsOfDay ["age", "city"] people (some 20, none) ofCity ∧
        ∀ group ∈ [], AnyHolds objectsOfDay ["age", "city"] people (some 20, none) group := by
  have hbuild : buildFiltersAdvanced objectsOfDay ["age", "city"] none ofAge ofCity [] =
      .ok adults := rfl
  exact buildFiltersAdvanced_selects hbuild people (some 20, none)

/-- Both fail with the same error, or both give statements that select the same rows, in the same
order and the same pages. -/
def Agree (columns : Columns X D V Row) :
    Except String (Select X D) → Except String (Select X D) → Prop
  | .ok q, .ok q' => (∀ row, q.selects columns row = q'.selects columns row) ∧
      q.orderBy = q'.orderBy ∧ q.limit = q'.limit ∧ q.offset = q'.offset
  | .error e, .error e' => e = e'
  | _, _ => False

theorem buildFilters_eq (objects : Objects X D) (attributes : List String)
    (stm : Option (Select X D)) (filters : List (Filter X)) :
    buildFilters objects attributes stm filters =
      (junction objects attributes .all filters).map fun clauses =>
        clauses.foldl Select.filterBy (stm.getD {}) := by
  unfold buildFilters junction
  cases conditions objects attributes filters with
  | error e => rfl
  | ok conds => cases hempty : conds.isEmpty <;> simp [Except.map, hempty]

theorem buildOrFilters_eq (objects : Objects X D) (attributes : List String)
    (stm : Option (Select X D)) (filters : List (Filter X)) :
    buildOrFilters objects attributes stm filters =
      (junction objects attributes .any filters).map fun clauses =>
        clauses.foldl Select.filterBy (stm.getD {}) := by
  unfold buildOrFilters junction
  cases conditions objects attributes filters with
  | error e => rfl
  | ok conds => cases hempty : conds.isEmpty <;> simp [Except.map, hempty]

theorem foldlM_buildOrFilters (objects : Objects X D) (attributes : List String)
    (groups : List (List (Filter X))) (query : Select X D) :
    groups.foldlM (fun query group => buildOrFilters objects attributes (some query) group) query =
      (groupClauses objects attributes groups).map fun clauses =>
        clauses.foldl Select.filterBy query := by
  induction groups generalizing query with
  | nil => rfl
  | cons group groups ih =>
    rw [List.foldlM_cons, buildOrFilters_eq, groupClauses]
    cases junction objects attributes .any group with
    | error e => rfl
    | ok clause =>
      refine (ih _).trans ?_
      cases groupClauses objects attributes groups with
      | error e => rfl
      | ok clauses => simp [Except.map, bind, Except.bind, pure, Except.pure]

theorem filterBy_foldl (clauses : List (Clause X D)) (query : Select X D) :
    (clauses.foldl Select.filterBy query).orderBy = query.orderBy ∧
      (clauses.foldl Select.filterBy query).limit = query.limit ∧
      (clauses.foldl Select.filterBy query).offset = query.offset := by
  induction clauses generalizing query with
  | nil => exact ⟨rfl, rfl, rfl⟩
  | cons c clauses ih => exact ih (query.filterBy c)

/-- `build_filters_advanced` agrees with the simple builders, one after the other. -/
theorem advanced_eq_chain (objects : Objects X D) (attributes : List String)
    (columns : Columns X D V Row) (stm : Option (Select X D))
    (andFilters orFilters : List (Filter X)) (orGroups : List (List (Filter X))) :
    Agree columns (buildFiltersAdvanced objects attributes stm andFilters orFilters orGroups) (do
      let query ← buildFilters objects attributes stm andFilters
      let query ← buildOrFilters objects attributes (some query) orFilters
      orGroups.foldlM (fun query group => buildOrFilters objects attributes (some query) group)
        query) := by
  simp only [foldlM_buildOrFilters]
  simp only [buildFilters_eq, buildOrFilters_eq, buildFiltersAdvanced]
  cases junction objects attributes .all andFilters with
  | error e => exact rfl
  | ok ands =>
    cases junction objects attributes .any orFilters with
    | error e => exact rfl
    | ok ors =>
      cases groupClauses objects attributes orGroups with
      | error e => exact rfl
      | ok groups =>
        have hchain : ∀ query : Select X D,
            groups.foldl Select.filterBy (ors.foldl Select.filterBy
              (ands.foldl Select.filterBy query)) =
              (ands ++ ors ++ groups).foldl Select.filterBy query := by
          simp [List.foldl_append]
        have hkept := filterBy_foldl (ands ++ ors ++ groups) (stm.getD {})
        refine ⟨fun row => Bool.eq_iff_iff.mpr ?_, ?_⟩
        · simp only [Option.getD_some, hchain]
          rw [selects_foldl, selects_joined]
        · simp only [Option.getD_some, hchain, hkept]
          split <;> exact ⟨rfl, rfl, rfl⟩

theorem splitFirst_cons {c : Char} {rest : List Char} (h : ¬['_', '_'] <+: c :: rest) :
    splitFirst (c :: rest) = (splitFirst rest).map fun x => (c :: x.1, x.2) := by
  rw [splitFirst]
  rintro rest' hc rfl
  exact h ⟨rest', by simp [hc]⟩

theorem splitFirst_join {field : List Char} (hfield : ¬['_', '_'] <:+: field)
    (hlast : field.getLast? ≠ some '_') (operator : List Char) :
    splitFirst (field ++ '_' :: '_' :: operator) = some (field, operator) := by
  induction field with
  | nil => rfl
  | cons c field ih =>
    have hrest : ¬['_', '_'] <:+: field := fun h =>
      hfield (h.trans (List.suffix_cons c field).isInfix)
    have hstart : ¬['_', '_'] <+: c :: (field ++ '_' :: '_' :: operator) := by
      cases field with
      | nil =>
        rintro ⟨t, ht⟩
        obtain ⟨rfl, -⟩ := List.cons.inj ht
        exact hlast rfl
      | cons d field =>
        rintro ⟨t, ht⟩
        obtain ⟨rfl, htail⟩ := List.cons.inj ht
        obtain ⟨rfl, -⟩ := List.cons.inj htail
        exact hfield ⟨[], field, rfl⟩
    rw [List.cons_append, splitFirst_cons hstart, ih hrest]
    · rfl
    · cases field with
      | nil => simp
      | cons d field => simpa using hlast

theorem splitFirst_spec {s field operator : List Char} (h : splitFirst s = some (field, operator)) :
    s = field ++ '_' :: '_' :: operator ∧ ¬['_', '_'] <:+: field ∧
      field.getLast? ≠ some '_' := by
  induction s generalizing field operator with
  | nil => cases h
  | cons c s ih =>
    by_cases hstart : ['_', '_'] <+: c :: s
    · obtain ⟨t, ht⟩ := hstart
      rw [← ht] at h ⊢
      cases h
      exact ⟨rfl, by simp, by simp⟩
    · rw [splitFirst_cons hstart] at h
      obtain ⟨⟨field', operator'⟩, hrest, heq⟩ := Option.map_eq_some_iff.mp h
      cases heq
      obtain ⟨hs, hinfix, hlast⟩ := ih hrest
      refine ⟨by rw [hs]; rfl, ?_, ?_⟩
      · rw [List.infix_cons_iff]
        rintro (⟨t, ht⟩ | hin)
        · -- the underscore after the first begins the delimiter or the rest of the field
          obtain ⟨rfl, rfl⟩ := List.cons.inj ht
          exact hstart ⟨t ++ '_' :: '_' :: operator', by rw [hs]; rfl⟩
        · exact hinfix hin
      · cases field' with
        | nil =>
          intro hc
          obtain rfl : c = '_' := by simpa using hc
          exact hstart ⟨'_' :: operator', by rw [hs]; rfl⟩
        | cons d field' => simpa using hlast

/-- A keyword is read as it was put together exactly when its field has no double underscore and
does not end in an underscore. -/
theorem parseKey_eq_iff (field operator : String) :
    parseKey (field ++ "__" ++ operator) = (field, operator) ↔
      ¬['_', '_'] <:+: field.toList ∧ field.toList.getLast? ≠ some '_' := by
  have hkey : (field ++ "__" ++ operator).toList =
      field.toList ++ '_' :: '_' :: operator.toList := by
    simp
  unfold parseKey
  rw [hkey]
  constructor
  · intro h
    cases hsplit : splitFirst (field.toList ++ '_' :: '_' :: operator.toList) with
    | none =>
      rw [hsplit] at h
      have hkey' := congrArg (fun x => x.1.toList.length) h
      simp only [hkey, List.length_append, List.length_cons] at hkey'
      omega
    | some x =>
      rw [hsplit] at h
      have hspec := splitFirst_spec hsplit
      obtain ⟨hfield, -⟩ := Prod.mk.inj h
      rw [← hfield, String.toList_ofList]
      exact hspec.2
  · rintro ⟨hfield, hlast⟩
    rw [splitFirst_join hfield hlast]
    simp

/-- The rows that the statement may give: the selected ones in an order of its key, cut out by its
offset and limit, which must not be negative. -/
def Select.Answers [LinearOrder O] (columns : Columns X D V Row)
    (key : List (String × Bool) → Row → O) (rows : List Row) (stm : Select X D)
    (answer : List Row) : Prop :=
  ∃ l, Arranged (key stm.orderBy) (rows.filter (stm.selects columns)) l ∧
    0 ≤ stm.offset.getD 0 ∧ (∀ n ∈ stm.limit, 0 ≤ n) ∧
    answer = (l.drop (stm.offset.getD 0).toNat).take (stm.limit.elim l.length Int.toNat)

theorem selects_orderQuery {ordered : Select X D} {orderBy : String}
    (h : orderQuery attributes query orderBy = .ok ordered) :
    ordered.selects columns = query.selects columns := by
  have hcolumn : ∀ {attr : String} {desc : Bool} {error : OrderError},
      (if attr ∈ attributes then
        (.ok { query with orderBy := query.orderBy ++ [(attr, desc)] } :
          Except OrderError (Select X D))
      else .error error) = .ok ordered → ordered.selects columns = query.selects columns := by
    intro attr desc error hite
    split at hite
    · cases hite
      rfl
    · cases hite
  unfold orderQuery at h
  simp only at h
  split at h
  · exact hcolumn h
  · split at h
    · cases h
    · exact hcolumn h

/-- However the database breaks ties, each selected row is on one page of an ordered query, exactly
when no tie of the order lies across a cut between two pages. -/
theorem pages_iff [LinearOrder O] (columns : Columns X D V Row)
    (key : List (String × Bool) → Row → O) {rows : List Row} (hrows : rows.Nodup)
    {ordered : Select X D} {orderBy : String}
    (hordered : orderQuery attributes query orderBy = .ok ordered) {n : ℕ} (hn : 0 < n) :
    (∀ answers : ℕ → List Row,
      (∀ k : ℕ, (paginateQuery ordered { limit := n, offset := (k * n : ℕ) }).Answers columns key
        rows (answers k)) →
      ∀ row ∈ rows, query.selects columns row = true → ∃! k, row ∈ answers k) ↔
    ∀ k v,
      ¬Straddles (key ordered.orderBy) (rows.filter (query.selects columns)) ((k + 1) * n) v := by
  have hselects : ordered.selects columns = query.selects columns := selects_orderQuery hordered
  rw [← pages_partition_iff (hrows.filter _) hn]
  have hpage : ∀ (k : ℕ) (answer : List Row),
      (paginateQuery ordered { limit := n, offset := (k * n : ℕ) }).Answers columns key rows
        answer ↔
      ∃ l, Arranged (key ordered.orderBy) (rows.filter (query.selects columns)) l ∧
        answer = page l n k := by
    intro k answer
    rw [← hselects]
    constructor
    · rintro ⟨l, hl, -, -, heq⟩
      exact ⟨l, hl, heq⟩
    · rintro ⟨l, hl, heq⟩
      refine ⟨l, hl, Int.natCast_nonneg _, ?_, heq⟩
      rintro _ ⟨⟩
      exact Int.natCast_nonneg _
  simp only [hpage, List.mem_filter, and_imp]
  constructor
  · intro h orders horders row hmem hselected
    exact h _ (fun k => ⟨orders k, horders k, rfl⟩) row hmem hselected
  · intro h answers hanswers row hmem hselected
    choose orders horders heq using hanswers
    simpa only [heq] using h orders horders row hmem hselected

def byAge : Select ℕ ℕ := { orderBy := [("age", true)] }

/-- Two people of the same age, one on each page. -/
theorem pages_iff_same_age :
    ¬∀ answers : ℕ → List (Option ℕ × Option ℕ),
      (∀ k : ℕ, (paginateQuery byAge { limit := (1 : ℕ), offset := (k * 1 : ℕ) }).Answers people
        (fun _ row => row.1.getD 0) [(some 20, none), (some 20, some 1)] (answers k)) →
      ∀ row ∈ [(some 20, none), (some 20, some 1)],
        ({} : Select ℕ ℕ).selects people row = true → ∃! k, row ∈ answers k := by
  intro h
  have hordered : orderQuery ["age", "city"] {} "age__desc" = .ok byAge := rfl
  exact (pages_iff people _ (by decide) hordered Nat.one_pos).mp h 0 20 (by decide)

end Taas.Queries
