import Taas.SagaContract

/-!
What a saga's actions and compensations do on their own. A plan lists functions with
their step numbers; `execute` applies them in order up to the first that raises, with
no saga record and no save in between. The other modules compare a run with it.
-/
namespace Taas.Saga

variable {C E : Type}

/-- The executions of a plan from the context `c`, and the context they leave. -/
def execute : List (ℕ × SagaAction C E) → C → List (Executed C E) × C
  | [], c => ([], c)
  | (i, action) :: plan, c =>
    match action c with
    | (c', some exc) => ([⟨i, c, some exc⟩], c')
    | (c', none) => (⟨i, c, none⟩ :: (execute plan c').1, (execute plan c').2)

/-- The actions of the steps that are left, from step `k` on. -/
def actionPlan (rest : List (SagaStep C E)) (k : ℕ) : List (ℕ × SagaAction C E) :=
  (rest.zipIdx k).map fun x => (x.2, x.1.action)

/-- The compensations of the steps before `k`, in reverse order. -/
def compensationPlan (definition : SagaDefinition C E) : ℕ → List (ℕ × SagaAction C E)
  | 0 => []
  | k + 1 =>
    match definition.steps[k]?.bind SagaStep.compensation with
    | some compensation => (k, compensation) :: compensationPlan definition k
    | none => compensationPlan definition k

def HasCompensation (definition : SagaDefinition C E) (i : ℕ) : Prop :=
  (definition.steps[i]?.bind SagaStep.compensation).isSome

instance (definition : SagaDefinition C E) (i : ℕ) : Decidable (HasCompensation definition i) := by
  unfold HasCompensation
  infer_instance

/-- The action of step `i` ran to success. -/
def Completed (trace : List (Event C E)) (i : ℕ) : Prop :=
  ∃ before, Event.action ⟨i, before, none⟩ ∈ trace

/-- The compensation of step `i` ran to success. -/
def Compensated (trace : List (Event C E)) (i : ℕ) : Prop :=
  ∃ before, Event.compensation ⟨i, before, none⟩ ∈ trace

instance (trace : List (Event C E)) (i : ℕ) : Decidable (Completed trace i) :=
  decidable_of_iff
    (trace.any fun
      | .action x => x.index = i ∧ x.outcome.isNone
      | _ => false) (by
    simp only [List.any_eq_true, Completed]
    constructor
    · rintro ⟨⟨j, before, outcome⟩ | _ | _, hmem, h⟩ <;> simp at h
      obtain ⟨rfl, rfl⟩ := h
      exact ⟨before, hmem⟩
    · rintro ⟨before, hmem⟩
      exact ⟨_, hmem, by simp⟩)

instance (trace : List (Event C E)) (i : ℕ) : Decidable (Compensated trace i) :=
  decidable_of_iff
    (trace.any fun
      | .compensation x => x.index = i ∧ x.outcome.isNone
      | _ => false) (by
    simp only [List.any_eq_true, Compensated]
    constructor
    · rintro ⟨_ | ⟨j, before, outcome⟩ | _, hmem, h⟩ <;> simp at h
      obtain ⟨rfl, rfl⟩ := h
      exact ⟨before, hmem⟩
    · rintro ⟨before, hmem⟩
      exact ⟨_, hmem, by simp⟩)

instance (l : List (Executed C E)) : Decidable (Failed l) :=
  decidable_of_iff (l.any fun x => x.outcome.isSome) (by
    simp [Failed, Option.isSome_iff_ne_none])

variable {env : Environment E} {definition : SagaDefinition C E} {s : Progress C E}
variable {trace : List (Event C E)} {c : C} {i k : ℕ} {step : SagaStep C E}
variable {rest : List (SagaStep C E)} {action : SagaAction C E} {plan : List (ℕ × SagaAction C E)}
variable {saga : SagaInstance C} {outcome : Option E} {x : Executed C E}

theorem execute_raises {exc : E} (h : (action c).2 = some exc) :
    execute ((k, action) :: plan) c = ([⟨k, c, some exc⟩], (action c).1) := by
  have hr : action c = ((action c).1, some exc) := Prod.ext rfl h
  rw [execute, hr]

theorem execute_returns (h : (action c).2 = none) :
    execute ((k, action) :: plan) c =
      (⟨k, c, none⟩ :: (execute plan (action c).1).1, (execute plan (action c).1).2) := by
  have hr : action c = ((action c).1, none) := Prod.ext rfl h
  rw [execute, hr]

theorem actionPlan_cons :
    actionPlan (step :: rest) k = (k, step.action) :: actionPlan rest (k + 1) := by
  simp [actionPlan, List.zipIdx_cons]

theorem compensationPlan_succ_some (h : definition.steps[k]? = some step)
    (hcomp : step.compensation = some action) :
    compensationPlan definition (k + 1) = (k, action) :: compensationPlan definition k := by
  simp [compensationPlan, h, hcomp]

theorem compensationPlan_succ_none (h : definition.steps[k]? = some step)
    (hcomp : step.compensation = none) :
    compensationPlan definition (k + 1) = compensationPlan definition k := by
  simp [compensationPlan, h, hcomp]

theorem completed_action : Completed (trace ++ [.action x]) i ↔
    Completed trace i ∨ (x.index = i ∧ x.outcome = none) := by
  obtain ⟨j, b, o⟩ := x
  constructor
  · rintro ⟨before, hmem⟩
    rcases List.mem_append.mp hmem with hmem | hmem
    · exact Or.inl ⟨before, hmem⟩
    · have heq := List.mem_singleton.mp hmem
      simp only [Event.action.injEq, Executed.mk.injEq] at heq
      exact Or.inr ⟨heq.1.symm, heq.2.2.symm⟩
  · rintro (⟨before, hmem⟩ | ⟨rfl, rfl⟩)
    · exact ⟨before, List.mem_append_left _ hmem⟩
    · exact ⟨b, by simp⟩

theorem compensated_compensation : Compensated (trace ++ [.compensation x]) i ↔
    Compensated trace i ∨ (x.index = i ∧ x.outcome = none) := by
  obtain ⟨j, b, o⟩ := x
  constructor
  · rintro ⟨before, hmem⟩
    rcases List.mem_append.mp hmem with hmem | hmem
    · exact Or.inl ⟨before, hmem⟩
    · have heq := List.mem_singleton.mp hmem
      simp only [Event.compensation.injEq, Executed.mk.injEq] at heq
      exact Or.inr ⟨heq.1.symm, heq.2.2.symm⟩
  · rintro (⟨before, hmem⟩ | ⟨rfl, rfl⟩)
    · exact ⟨before, List.mem_append_left _ hmem⟩
    · exact ⟨b, by simp⟩

@[simp] theorem completed_saved :
    Completed (trace ++ [.saved saga outcome]) i ↔ Completed trace i := by
  simp [Completed]

@[simp] theorem completed_compensation :
    Completed (trace ++ [.compensation x]) i ↔ Completed trace i := by
  simp [Completed]

@[simp] theorem compensated_saved :
    Compensated (trace ++ [.saved saga outcome]) i ↔ Compensated trace i := by
  simp [Compensated]

@[simp] theorem compensated_action :
    Compensated (trace ++ [.action x]) i ↔ Compensated trace i := by
  simp [Compensated]

@[simp] theorem saves_touch : (s.touch env).saves = s.saves := rfl

@[simp] theorem saves_setStatus {status : SagaStatus} : (s.setStatus status).saves = s.saves := rfl

@[simp] theorem saves_setRecord {f : SagaStepRecord → SagaStepRecord} :
    (s.setRecord k f).saves = s.saves := rfl

@[simp] theorem saves_save : (s.save env).1.saves = s.saves + 1 := by
  simp [Progress.save, Progress.saves]

@[simp] theorem saves_action : (s.await .action k action).1.saves = s.saves := by
  simp [Progress.await, Progress.saves]

@[simp] theorem saves_compensation : (s.await .compensation k action).1.saves = s.saves := by
  simp [Progress.await, Progress.saves]

theorem trace_advance (env : Environment E) (k : ℕ) (hr : (step.action s.saga.context).2 = none) :
    ∃ saga,
      statusAt (advance env k step s) = (fun i => (saga.steps[i]?).map SagaStepRecord.status) ∧
      (advance env k step s).trace =
        s.trace ++ [.action ⟨k, s.saga.context, none⟩] ++ [.saved saga (env.save s.saves)] := by
  refine ⟨(advance env k step s).saga, rfl, ?_⟩
  simp [advance, Progress.save, Progress.touch, Progress.setRecord, Progress.await, Progress.saves,
    hr]

theorem trace_markFailed {exc : E} (env : Environment E) (k : ℕ)
    (hr : (step.action s.saga.context).2 = some exc) :
    ∃ saga, statusAt (markFailed env k exc (s.await .action k step.action).1) =
        (fun i => (saga.steps[i]?).map SagaStepRecord.status) ∧
      (markFailed env k exc (s.await .action k step.action).1).trace =
        s.trace ++ [.action ⟨k, s.saga.context, some exc⟩] ++ [.saved saga (env.save s.saves)] := by
  refine ⟨(markFailed env k exc (s.await .action k step.action).1).saga, rfl, ?_⟩
  simp [markFailed, Progress.save, Progress.touch, Progress.setRecord, Progress.setStatus,
    Progress.await, Progress.saves, hr]

variable {config : SagaConfig} {exc saveExc : E}

theorem compensate_skips (hstep : definition.steps[k]? = some step)
    (hcomp : step.compensation = none) (hdone : statusAt s k = some .completed) :
    compensate env definition (k + 1) s = compensate env definition k s := by
  obtain ⟨record, hrecord, _⟩ := Option.map_eq_some_iff.mp hdone
  simp [compensate, hstep, hrecord, hcomp]

/-- The state that `_compensate` saves when the compensation of step `k` raised. -/
def giveUp (env : Environment E) (k : ℕ) (exc : E) (s : Progress C E) : Progress C E :=
  ((s.setRecord k fun r =>
    { r with error := some ("compensation failed: " ++ env.repr exc) }).setStatus .failed).touch env

/-- A compensation that raised changes no status, and is followed by the save. -/
theorem trace_giveUp (env : Environment E) (k : ℕ)
    (hr : (action s.saga.context).2 = some exc) :
    ∃ saga, statusAt s = (fun i => (saga.steps[i]?).map SagaStepRecord.status) ∧
      ((giveUp env k exc (s.await .compensation k action).1).save env).1.trace =
        s.trace ++ [.compensation ⟨k, s.saga.context, some exc⟩] ++
          [.saved saga (env.save s.saves)] := by
  refine ⟨(giveUp env k exc (s.await .compensation k action).1).saga, ?_, ?_⟩
  · funext i
    show _ = statusAt ((s.await .compensation k action).1.setRecord k _) i
    rw [statusAt_setRecord]
    simp [statusAt, Progress.await]
  · simp [Progress.save, giveUp, Progress.await, Progress.touch, Progress.setStatus,
      Progress.setRecord, Progress.saves, hr]

theorem trace_compensated (k : ℕ) (hr : (action s.saga.context).2 = none)
    (f : SagaStepRecord → SagaStepRecord) :
    ((s.await .compensation k action).1.setRecord k f).trace =
      s.trace ++ [.compensation ⟨k, s.saga.context, none⟩] := by
  simp [Progress.await, Progress.setRecord, hr]

theorem compensate_raises (hstep : definition.steps[k]? = some step)
    (hcomp : step.compensation = some action) (hdone : statusAt s k = some .completed)
    (hr : (action s.saga.context).2 = some exc) :
    compensate env definition (k + 1) s =
      ((giveUp env k exc (s.await .compensation k action).1).save env |>.1,
        some (match env.save s.saves with
          | some saveExc => .save saveExc
          | none => Raised.compensationError env step.name exc)) := by
  obtain ⟨record, hrecord, hstatus⟩ := Option.map_eq_some_iff.mp hdone
  have hawait : s.await .compensation k action =
      ((s.await .compensation k action).1, some exc) := Prod.ext rfl hr
  simp only [compensate, hstep, hrecord, hstatus, hcomp, decide_true]
  rw [hawait]
  cases hsave : env.save s.saves <;> simp [giveUp, Progress.save, hsave]

theorem forward_goes_on (hr : (step.action s.saga.context).2 = none)
    (hsave : env.save s.saves = none) :
    forward env config definition (step :: rest) k s =
      forward env config definition rest (k + 1) (advance env k step s) := by
  have hawait : s.await .action k step.action =
      ((s.await .action k step.action).1, none) := Prod.ext rfl hr
  rw [forward, hawait]
  simp [advance, Progress.save, hsave]

theorem forward_save_raises (hr : (step.action s.saga.context).2 = none)
    (hsave : env.save s.saves = some saveExc) :
    forward env config definition (step :: rest) k s =
      (advance env k step s, some (.save saveExc)) := by
  have hawait : s.await .action k step.action =
      ((s.await .action k step.action).1, none) := Prod.ext rfl hr
  rw [forward, hawait]
  simp [advance, Progress.save, hsave]

theorem forward_mark_raises (hr : (step.action s.saga.context).2 = some exc)
    (hsave : env.save s.saves = some saveExc) :
    forward env config definition (step :: rest) k s =
      (markFailed env k exc (s.await .action k step.action).1, some (.save saveExc)) := by
  have hawait : s.await .action k step.action =
      ((s.await .action k step.action).1, some exc) := Prod.ext rfl hr
  rw [forward, hawait]
  simp [abort, markFailed, Progress.save, hsave]

/-- What the handler of a failing action raises after `_compensate`. -/
def raisedAfter (env : Environment E) (config : SagaConfig) (step : SagaStep C E) (exc : E)
    (result : Progress C E × Option (Raised E)) : Option (Raised E) :=
  result.2 <|> if config.raiseOnAbort ∧ result.1.saga.status = .aborted then
    some (Raised.abortedError env result.1.saga.id step.name exc) else none

theorem forward_compensates (hr : (step.action s.saga.context).2 = some exc)
    (hsave : env.save s.saves = none) :
    forward env config definition (step :: rest) k s =
      let result := compensate env definition k
        (markFailed env k exc (s.await .action k step.action).1)
      (result.1, raisedAfter env config step exc result) := by
  have hawait : s.await .action k step.action =
      ((s.await .action k step.action).1, some exc) := Prod.ext rfl hr
  rw [forward, hawait]
  simp only [abort, markFailed, Progress.save, saves_touch, saves_setStatus, saves_setRecord,
    saves_action, hsave]
  split
  · rename_i heq
    simp [heq, raisedAfter]
  · rename_i heq
    rw [heq]
    simp only [raisedAfter, Option.orElse_eq_orElse, Option.orElse_none]
    split <;> rfl

end Taas.Saga
