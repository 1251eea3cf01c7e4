import Mathlib.Algebra.Order.Ring.Rat
import Mathlib.Data.List.Basic

/-!
The saga executor. A run threads the saga it persists, the number of clock readings
and the trace of what it has executed and saved, in order. An action or compensation
changes the context and then returns or raises; `save` may raise too. Contexts and
exceptions are of any type. A crash leaves a prefix of the trace.
-/
namespace Taas.Saga

variable {C E : Type}

inductive SagaStatus
  | running
  | completed
  | compensating
  | aborted
  | failed
  deriving DecidableEq, Repr

inductive SagaStepStatus
  | pending
  | completed
  | compensated
  | failed
  deriving DecidableEq, Repr

/-- What an action does to the context, and what it raises if it raises. -/
abbrev SagaAction (C E : Type) := C → C × Option E

structure SagaStep (C E : Type) where
  name : String
  action : SagaAction C E
  compensation : Option (SagaAction C E) := none

structure SagaDefinition (C E : Type) where
  name : String
  steps : List (SagaStep C E)
  nonempty : steps ≠ []

/-- The constructor; the error is the text of its `ValueError`. -/
def SagaDefinition.init (name : String) (steps : List (SagaStep C E)) :
    Except String (SagaDefinition C E) :=
  if h : steps = [] then .error "SagaDefinition must contain at least one step"
  else .ok { name := name, steps := steps, nonempty := h }

structure SagaStepRecord where
  name : String
  status : SagaStepStatus := .pending
  error : Option String := none
  deriving DecidableEq

structure SagaInstance (C : Type) where
  id : String
  name : String
  status : SagaStatus
  context : C
  steps : List SagaStepRecord
  createdAt : ℚ
  updatedAt : ℚ

structure SagaConfig where
  raiseOnAbort : Bool := true

/-- What a run reads from outside: the successive clock readings, a fresh id, what each
`save` raises, and the `repr` of exceptions and of strings. -/
structure Environment (E : Type) where
  time : ℕ → ℚ
  uuid4 : String
  save : ℕ → Option E
  repr : E → String
  reprStr : String → String

/-- One execution of the action or compensation of step `index`, on the context `before`. -/
structure Executed (C E : Type) where
  index : ℕ
  before : C
  outcome : Option E

inductive Event (C E : Type)
  | action (x : Executed C E)
  | compensation (x : Executed C E)
  | saved (saga : SagaInstance C) (outcome : Option E)

/-- What `run` raises: the two saga errors, what `save` raised, or the `IndexError` of a
step list and a record list of different lengths. -/
inductive Raised (E : Type)
  | aborted (message sagaId failedStep : String) (cause : E)
  | compensation (message : String) (cause : E)
  | save (exc : E)
  | index

namespace Raised

def abortedError (env : Environment E) (sagaId failedStep : String) (cause : E) : Raised E :=
  .aborted ("Saga " ++ env.reprStr sagaId ++ " aborted at step " ++ env.reprStr failedStep ++
    ": " ++ env.repr cause) sagaId failedStep cause

def compensationError (env : Environment E) (step : String) (cause : E) : Raised E :=
  .compensation ("Compensation for step " ++ env.reprStr step ++ " failed") cause

end Raised

structure Progress (C E : Type) where
  saga : SagaInstance C
  readings : ℕ := 0
  trace : List (Event C E) := []

namespace Progress

def saves (s : Progress C E) : ℕ :=
  s.trace.countP fun
    | .saved _ _ => true
    | _ => false

def touch (env : Environment E) (s : Progress C E) : Progress C E :=
  { s with
    saga := { s.saga with updatedAt := env.time s.readings }
    readings := s.readings + 1 }

def save (env : Environment E) (s : Progress C E) : Progress C E × Option E :=
  let outcome := env.save s.saves
  ({ s with trace := s.trace ++ [.saved s.saga outcome] }, outcome)

def setStatus (status : SagaStatus) (s : Progress C E) : Progress C E :=
  { s with saga := { s.saga with status := status } }

def setRecord (index : ℕ) (f : SagaStepRecord → SagaStepRecord) (s : Progress C E) :
    Progress C E :=
  { s with saga := { s.saga with steps := s.saga.steps.modify index f } }

def await (event : Executed C E → Event C E) (index : ℕ) (action : SagaAction C E)
    (s : Progress C E) : Progress C E × Option E :=
  let before := s.saga.context
  let result := action before
  ({ s with
      saga := { s.saga with context := result.1 }
      trace := s.trace ++ [event ⟨index, before, result.2⟩] },
    result.2)

end Progress

/-- `_compensate` with `i` steps left to look at. -/
def compensate (env : Environment E) (definition : SagaDefinition C E) :
    ℕ → Progress C E → Progress C E × Option (Raised E)
  | 0, s =>
    let (s, outcome) := ((s.setStatus .aborted).touch env).save env
    (s, outcome.map Raised.save)
  | i + 1, s =>
    match definition.steps[i]?, s.saga.steps[i]? with
    | some step, some record =>
      match decide (record.status = .completed), step.compensation with
      | true, some compensation =>
        match s.await .compensation i compensation with
        | (s, some exc) =>
          let s := s.setRecord i fun record =>
            { record with error := some ("compensation failed: " ++ env.repr exc) }
          match ((s.setStatus .failed).touch env).save env with
          | (s, some saveExc) => (s, some (.save saveExc))
          | (s, none) => (s, some (Raised.compensationError env step.name exc))
        | (s, none) =>
          compensate env definition i
            (s.setRecord i fun record => { record with status := .compensated })
      | _, _ => compensate env definition i s
    | _, _ => (s, some .index)

/-- The exception handler of `run` for the action of step `index`. -/
def abort (env : Environment E) (config : SagaConfig) (definition : SagaDefinition C E)
    (index : ℕ) (step : SagaStep C E) (exc : E) (s : Progress C E) :
    Progress C E × Option (Raised E) :=
  let s := s.setRecord index fun record =>
    { record with status := .failed, error := some (env.repr exc) }
  match ((s.setStatus .compensating).touch env).save env with
  | (s, some saveExc) => (s, some (.save saveExc))
  | (s, none) =>
    match compensate env definition index s with
    | (s, some raised) => (s, some raised)
    | (s, none) =>
      if config.raiseOnAbort ∧ s.saga.status = .aborted then
        (s, some (Raised.abortedError env s.saga.id step.name exc))
      else (s, none)

/-- The loop of `run` over the steps that are left, from step `index` on. -/
def forward (env : Environment E) (config : SagaConfig) (definition : SagaDefinition C E) :
    List (SagaStep C E) → ℕ → Progress C E → Progress C E × Option (Raised E)
  | [], _, s =>
    let (s, outcome) := ((s.setStatus .completed).touch env).save env
    (s, outcome.map Raised.save)
  | step :: rest, index, s =>
    match s.await .action index step.action with
    | (s, some exc) => abort env config definition index step exc s
    | (s, none) =>
      let s := s.setRecord index fun record => { record with status := .completed }
      match (s.touch env).save env with
      | (s, some saveExc) => (s, some (.save saveExc))
      | (s, none) => forward env config definition rest (index + 1) s

/-- The saga as `run` creates it. An empty id counts as none. -/
def create [EmptyCollection C] (env : Environment E) (definition : SagaDefinition C E)
    (context : Option C) (sagaId : Option String) : Progress C E where
  saga :=
    { id := match sagaId with
        | some id => if id = "" then env.uuid4 else id
        | none => env.uuid4
      name := definition.name
      status := .running
      context := context.getD ∅
      steps := definition.steps.map fun step => { name := step.name }
      createdAt := env.time 0
      updatedAt := env.time 0 }
  readings := 1

/-- `SagaService.run`: the progress made, and what it raises; when it raises nothing it
returns the saga of that progress. -/
def run [EmptyCollection C] (env : Environment E) (config : SagaConfig)
    (definition : SagaDefinition C E) (context : Option C) (sagaId : Option String) :
    Progress C E × Option (Raised E) :=
  match (create env definition context sagaId).save env with
  | (s, some saveExc) => (s, some (.save saveExc))
  | (s, none) => forward env config definition definition.steps 0 s

end Taas.Saga
