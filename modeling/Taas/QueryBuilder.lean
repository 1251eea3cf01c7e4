import Mathlib.Data.Bool.AllAny
import Taas.Like

/-!
The conditions that `QueryBuilder` builds for one filter, and what its filters of texts select. The
value of such a filter is put into a pattern as it is.
-/
namespace Taas.QueryBuilder

open Like

/-- A filter value: a text, a list or tuple, or any other object. -/
inductive Value (X : Type)
  | text (s : String)
  | items (xs : List (Value X))
  | object (x : X)

/-- What the builder asks of values that are no texts, and of dates. -/
structure Objects (X D : Type) where
  str : Value X → String
  bool : X → Bool
  strptime : String → Option D

variable {X D : Type}

/-- The value in an f-string. -/
def Objects.format (objects : Objects X D) : Value X → String
  | .text s => s
  | value => objects.str value

def Objects.truth (objects : Objects X D) : Value X → Bool
  | .text s => s ≠ ""
  | .items xs => !xs.isEmpty
  | .object x => objects.bool x

inductive Condition (X D : Type)
  | eq (field : String) (value : Value X)
  | ne (field : String) (value : Value X)
  | gt (field : String) (value : Value X)
  | ge (field : String) (value : Value X)
  | lt (field : String) (value : Value X)
  | le (field : String) (value : Value X)
  | isIn (field : String) (values : List (Value X))
  | notIn (field : String) (values : List (Value X))
  | isNull (field : String)
  | isNotNull (field : String)
  | like (field : String) (pattern : String)
  | ilike (field : String) (pattern : String)
  | dateIs (field : String) (value : Value X ⊕ D)

/-- The members of a list or tuple, or the value alone. -/
def Value.members : Value X → List (Value X)
  | .items xs => xs
  | value => [value]

/-- `_build_single_condition`. The attributes are those of the model class. -/
def buildSingleCondition (objects : Objects X D) (attributes : List String)
    (fieldName operator : String) (value : Value X) : Except String (Option (Condition X D)) :=
  if fieldName ∈ attributes then
    match operator with
    | "eq" =>
      match value with
      | .items xs => .ok (some (.isIn fieldName xs))
      | value => .ok (some (.eq fieldName value))
    | "neq" => .ok (some (.ne fieldName value))
    | "icontains" => .ok (some (.ilike fieldName ("%" ++ objects.format value ++ "%")))
    | "contains" => .ok (some (.like fieldName ("%" ++ objects.format value ++ "%")))
    | "gt" => .ok (some (.gt fieldName value))
    | "gte" => .ok (some (.ge fieldName value))
    | "lt" => .ok (some (.lt fieldName value))
    | "lte" => .ok (some (.le fieldName value))
    | "in" => .ok (some (.isIn fieldName value.members))
    | "nin" => .ok (some (.notIn fieldName value.members))
    | "isnull" =>
      .ok (some (if objects.truth value then .isNull fieldName else .isNotNull fieldName))
    | "startswith" => .ok (some (.like fieldName (objects.format value ++ "%")))
    | "istartswith" => .ok (some (.ilike fieldName (objects.format value ++ "%")))
    | "endswith" => .ok (some (.like fieldName ("%" ++ objects.format value)))
    | "iendswith" => .ok (some (.ilike fieldName ("%" ++ objects.format value)))
    | "ci" => .ok (some (.ilike fieldName (objects.format value)))
    | "iexact" => .ok (some (.ilike fieldName (objects.format value)))
    | "date" =>
      match value with
      | .text s =>
        match objects.strptime s with
        | some date => .ok (some (.dateIs fieldName (.inr date)))
        | none =>
          .error ("Invalid date format for field '" ++ fieldName ++ "': " ++ objects.format value)
      | value => .ok (some (.dateIs fieldName (.inl value)))
    | _ => .ok none
  else .ok none

/-- The condition is one with a pattern, and true of a row with this text in the column. -/
inductive Condition.Selects (F : Folding) (column : String) : Condition X D → Prop
  | like {field pattern : String} :
      Like.like pattern.toList column.toList = true → Selects F column (.like field pattern)
  | ilike {field pattern : String} :
      F.ilike pattern.toList column.toList = true → Selects F column (.ilike field pattern)

inductive TextOperator
  | contains
  | icontains
  | startswith
  | istartswith
  | endswith
  | iendswith
  | ci
  | iexact
  deriving DecidableEq

namespace TextOperator

def name : TextOperator → String
  | contains => "contains"
  | icontains => "icontains"
  | startswith => "startswith"
  | istartswith => "istartswith"
  | endswith => "endswith"
  | iendswith => "iendswith"
  | ci => "ci"
  | iexact => "iexact"

/-- The column values that the filter is for. -/
def Means (F : Folding) (value column : String) : TextOperator → Prop
  | contains => value.toList <:+: column.toList
  | icontains => value.toList.map F.lower <:+: column.toList.map F.lower
  | startswith => value.toList <+: column.toList
  | istartswith => value.toList.map F.lower <+: column.toList.map F.lower
  | endswith => value.toList <:+ column.toList
  | iendswith => value.toList.map F.lower <:+ column.toList.map F.lower
  | ci => value.toList.map F.lower = column.toList.map F.lower
  | iexact => value.toList.map F.lower = column.toList.map F.lower

/-- Whether a percent sign stands before the value in the pattern. -/
def before : TextOperator → Bool
  | contains | icontains | endswith | iendswith => true
  | _ => false

/-- Whether a percent sign stands after the value in the pattern. -/
def after : TextOperator → Bool
  | contains | icontains | startswith | istartswith => true
  | _ => false

/-- The case that the comparison sees. -/
def folding (F : Folding) : TextOperator → Folding
  | contains | startswith | endswith => Folding.identity
  | _ => F

instance (F : Folding) (value column : String) :
    ∀ op : TextOperator, Decidable (op.Means F value column)
  | contains => inferInstanceAs (Decidable (_ <:+: _))
  | icontains => inferInstanceAs (Decidable (_ <:+: _))
  | startswith => inferInstanceAs (Decidable (_ <+: _))
  | istartswith => inferInstanceAs (Decidable (_ <+: _))
  | endswith => inferInstanceAs (Decidable (_ <:+ _))
  | iendswith => inferInstanceAs (Decidable (_ <:+ _))
  | ci => inferInstanceAs (Decidable (_ = _))
  | iexact => inferInstanceAs (Decidable (_ = _))

theorem means_iff (F : Folding) (op : TextOperator) (value column : String) :
    op.Means F value column ↔ Meant op.before op.after
      (value.toList.map (op.folding F).lower) (column.toList.map (op.folding F).lower) := by
  cases op <;> simp [Means, before, after, folding, Meant, Folding.identity]

theorem selects_like (F : Folding) (field pattern column : String) :
    (Condition.like field pattern : Condition X D).Selects F column ↔
      Folding.identity.ilike pattern.toList column.toList = true := by
  simp only [Folding.ilike, Folding.identity, List.map_id]
  constructor
  · intro h
    cases h with
    | like h => exact h
  · exact .like

theorem selects_ilike (F : Folding) (field pattern column : String) :
    (Condition.ilike field pattern : Condition X D).Selects F column ↔
      F.ilike pattern.toList column.toList = true := by
  constructor
  · intro h
    cases h with
    | ilike h => exact h
  · exact .ilike

theorem ofList_splice (before after : Bool) (value : String) :
    String.ofList (splice before after value.toList) =
      (if before then "%" else "") ++ value ++ if after then "%" else "" := by
  apply String.toList_injective
  cases before <;> cases after <;> simp [splice]

/-- The pattern, in the kind of condition that the operator asks for. -/
def condition (field value : String) (op : TextOperator) : Condition X D :=
  let pattern := String.ofList (splice op.before op.after value.toList)
  match op with
  | contains | startswith | endswith => .like field pattern
  | _ => .ilike field pattern

theorem buildSingleCondition_name (objects : Objects X D) {attributes : List String}
    {field : String} (hfield : field ∈ attributes) (op : TextOperator) (value : String) :
    buildSingleCondition objects attributes field op.name (.text value) =
      .ok (some (op.condition field value)) := by
  cases op <;>
    simp [buildSingleCondition, name, condition, hfield, ofList_splice, before, after,
      Objects.format]

theorem selects_condition (F : Folding) (field value column : String) (op : TextOperator) :
    (op.condition field value : Condition X D).Selects F column ↔
      (op.folding F).ilike (splice op.before op.after value.toList) column.toList = true := by
  cases op <;> simp [condition, folding, selects_like, selects_ilike]

end TextOperator

/-- A filter of texts selects the column values it is for exactly when its value has no percent
sign, underscore or backslash. -/
theorem text_filter_iff (F : Folding) (objects : Objects X D) {attributes : List String}
    {field : String} (hfield : field ∈ attributes) (op : TextOperator) (value : String) :
    (∃ condition, buildSingleCondition objects attributes field op.name (.text value) =
        .ok (some condition) ∧ ∀ column, condition.Selects F column ↔ op.Means F value column) ↔
      ∀ c ∈ value.toList, c ≠ '%' ∧ c ≠ '_' ∧ c ≠ '\\' := by
  have hspecial : (∀ c ∈ value.toList, c ≠ '%' ∧ c ≠ '_' ∧ c ≠ '\\') ↔
      ∀ c ∈ value.toList, ¬special c := by
    simp only [special, not_or, ne_eq]
  have hcolumns : (∀ column : String,
        (op.condition field value : Condition X D).Selects F column ↔ op.Means F value column) ↔
      ∀ t, (op.folding F).ilike (splice op.before op.after value.toList) t = true ↔
        Meant op.before op.after (value.toList.map (op.folding F).lower)
          (t.map (op.folding F).lower) := by
    simp only [op.selects_condition, op.means_iff]
    constructor
    · intro h t
      simpa using h (String.ofList t)
    · intro h column
      exact h column.toList
  rw [hspecial, ← (op.folding F).ilike_splice_iff op.before op.after, ← hcolumns,
    op.buildSingleCondition_name objects hfield]
  simp

/-- Objects are numbers, and no text is a date. -/
def objectsOfDay : Objects ℕ ℕ := ⟨fun _ => "", fun x => x ≠ 0, fun _ => none⟩

theorem text_filter_iff_email :
    ∃ condition, buildSingleCondition objectsOfDay ["email"] "email" "icontains"
        (.text "@Test.com") = .ok (some condition) ∧
      ∀ column, condition.Selects Folding.ascii column ↔
        TextOperator.icontains.Means Folding.ascii "@Test.com" column :=
  (text_filter_iff Folding.ascii objectsOfDay (by decide) .icontains "@Test.com").mpr
    (List.all_iff_forall_prop.mp (by decide))

/-- The underscore of the value stands for any character. -/
theorem iexact_selects_another :
    ¬∀ (value column : String) (condition : Condition ℕ ℕ),
      buildSingleCondition objectsOfDay ["username"] "username" "iexact" (.text value) =
        .ok (some condition) →
      (condition.Selects Folding.ascii column ↔
        TextOperator.iexact.Means Folding.ascii value column) := by
  intro hall
  have h := hall "john_doe" "johnXdoe" _ rfl
  have hselects := (TextOperator.selects_ilike (X := ℕ) (D := ℕ) Folding.ascii "username"
    "john_doe" "johnXdoe").mpr (by decide)
  have hmeans := h.mp hselects
  revert hmeans
  decide

end Taas.QueryBuilder
