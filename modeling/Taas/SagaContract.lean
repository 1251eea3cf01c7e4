import Taas.Saga

/-!
What a saga run does when no `save` fails. The actions run in order up to the first
that fails. Then the compensations of the steps before it run in reverse order up to
the first that fails. The two loops are related to these two lists of executions;
the final statuses, the step records and the exception are read off the lists.
-/
namespace Taas.Saga

variable {C E : Type}

/-- `l` runs the steps of the plan in order, each once, up to and including the first
that fails. -/
inductive RunsUntilFailure : List ℕ → List (Executed C E) → Prop
  | done : RunsUntilFailure [] []
  | failed {x : Executed C E} {plan : List ℕ} :
      x.outcome ≠ none → RunsUntilFailure (x.index :: plan) [x]
  | succeeded {x : Executed C E} {plan : List ℕ} {l : List (Executed C E)} :
      x.outcome = none → RunsUntilFailure plan l → RunsUntilFailure (x.index :: plan) (x :: l)

def Failed (l : List (Executed C E)) : Prop := ∃ x ∈ l, x.outcome ≠ none

/-- Step `i` succeeded in `l`. -/
def Succeeds (l : List (Executed C E)) (i : ℕ) : Prop :=
  ∃ x ∈ l, x.index = i ∧ x.outcome = none

/-- The trace without its saves. -/
def executed (trace : List (Event C E)) : List (Event C E) :=
  trace.filter fun
    | .saved _ _ => false
    | _ => true

/-- The steps before `k` that have a compensation, in reverse order. -/
def eligible (definition : SagaDefinition C E) (k : ℕ) : List ℕ :=
  (List.range k).reverse.filter fun i =>
    (definition.steps[i]?.bind SagaStep.compensation).isSome

def statusAt (s : Progress C E) (i : ℕ) : Option SagaStepStatus :=
  (s.saga.steps[i]?).map SagaStepRecord.status

/-- The contract of a run with the executed actions `acts` and compensations `comps`. -/
structure Contract (config : SagaConfig) (definition : SagaDefinition C E) (s : Progress C E)
    (raised : Option (Raised E)) (acts comps : List (Executed C E)) : Prop where
  trace : executed s.trace = acts.map Event.action ++ comps.map Event.compensation
  actions : RunsUntilFailure (List.range definition.steps.length) acts
  actionOutcomes : ∀ x ∈ acts, ∃ step ∈ definition.steps[x.index]?,
    (step.action x.before).2 = x.outcome
  noCompensations : ¬ Failed acts → comps = []
  compensations : ∀ x ∈ acts, x.outcome ≠ none →
    RunsUntilFailure (eligible definition x.index) comps
  compensationOutcomes : ∀ x ∈ comps, ∃ step ∈ definition.steps[x.index]?,
    ∃ compensation ∈ step.compensation, (compensation x.before).2 = x.outcome
  completed : s.saga.status = .completed ↔ ¬ Failed acts
  aborted : s.saga.status = .aborted ↔ Failed acts ∧ ¬ Failed comps
  failed : s.saga.status = .failed ↔ Failed comps
  raisesCompensation : (∃ message cause, raised = some (.compensation message cause)) ↔
    s.saga.status = .failed
  raisesAborted :
    (∃ message sagaId step cause, raised = some (.aborted message sagaId step cause)) ↔
    s.saga.status = .aborted ∧ config.raiseOnAbort
  returns : raised = none ↔
    s.saga.status ≠ .failed ∧ ¬ (s.saga.status = .aborted ∧ config.raiseOnAbort)
  records : s.saga.steps.map SagaStepRecord.name = definition.steps.map SagaStep.name
  recordPending : ∀ i < definition.steps.length,
    (statusAt s i = some .pending ↔ ∀ x ∈ acts, x.index ≠ i)
  recordFailed : ∀ i < definition.steps.length,
    (statusAt s i = some .failed ↔ ∃ x ∈ acts, x.index = i ∧ x.outcome ≠ none)
  recordCompensated : ∀ i < definition.steps.length,
    (statusAt s i = some .compensated ↔ Succeeds comps i)
  recordCompleted : ∀ i < definition.steps.length,
    (statusAt s i = some .completed ↔ Succeeds acts i ∧ ¬ Succeeds comps i)

namespace RunsUntilFailure

variable {plan : List ℕ} {l : List (Executed C E)} {x y : Executed C E}

theorem index_mem (h : RunsUntilFailure plan l) (hx : x ∈ l) : x.index ∈ plan := by
  induction h with
  | done => simp at hx
  | failed =>
    obtain rfl := List.mem_singleton.mp hx
    exact List.mem_cons_self
  | succeeded _ _ ih =>
    rcases List.mem_cons.mp hx with rfl | hx
    · exact List.mem_cons_self
    · exact List.mem_cons_of_mem _ (ih hx)

/-- Only the last execution may have failed. -/
theorem failed_unique (h : RunsUntilFailure plan l) (hx : x ∈ l) (hy : y ∈ l)
    (hxf : x.outcome ≠ none) (hyf : y.outcome ≠ none) : x = y := by
  induction h with
  | done => simp at hx
  | failed => rw [List.mem_singleton.mp hx, List.mem_singleton.mp hy]
  | succeeded hnone _ ih =>
    rcases List.mem_cons.mp hx with rfl | hx
    · exact absurd hnone hxf
    · rcases List.mem_cons.mp hy with rfl | hy
      · exact absurd hnone hyf
      · exact ih hx hy

/-- Without a failure the whole plan is run, and otherwise all of it before the failure. -/
theorem covers {m n : ℕ} (h : RunsUntilFailure (List.range' m n) l) {i : ℕ}
    (hi : m ≤ i) (hor : (¬ Failed l ∧ i < m + n) ∨ ∃ x ∈ l, x.outcome ≠ none ∧ i ≤ x.index) :
    ∃ x ∈ l, x.index = i := by
  generalize hp : List.range' m n = plan at h
  induction h generalizing m n with
  | done =>
    rcases hor with ⟨_, hlt⟩ | ⟨x, hx, _⟩
    · have hn : n = 0 := by simpa using congrArg List.length hp
      omega
    · simp at hx
  | @failed x plan hx =>
    cases n with
    | zero => simp at hp
    | succ n =>
      rw [List.range'_succ, List.cons.injEq] at hp
      refine ⟨x, List.mem_singleton.mpr rfl, ?_⟩
      rcases hor with ⟨hnf, _⟩ | ⟨y, hy, _, hle⟩
      · exact absurd ⟨x, List.mem_singleton.mpr rfl, hx⟩ hnf
      · obtain rfl := List.mem_singleton.mp hy
        omega
  | @succeeded x plan l hx _ ih =>
    cases n with
    | zero => simp at hp
    | succ n =>
      rw [List.range'_succ, List.cons.injEq] at hp
      by_cases hix : x.index = i
      · exact ⟨x, List.mem_cons_self, hix⟩
      · obtain ⟨y, hy, hyi⟩ := ih (m := m + 1) (n := n) (by omega) (by
          rcases hor with ⟨hnf, hlt⟩ | ⟨y, hy, hyf, hle⟩
          · exact Or.inl ⟨fun ⟨z, hz, hzf⟩ => hnf ⟨z, List.mem_cons_of_mem _ hz, hzf⟩, by omega⟩
          · rcases List.mem_cons.mp hy with rfl | hy
            · exact absurd hx hyf
            · exact Or.inr ⟨y, hy, hyf, hle⟩) hp.2
        exact ⟨y, List.mem_cons_of_mem _ hy, hyi⟩

end RunsUntilFailure

theorem failed_cons_of_none {x : Executed C E} {l : List (Executed C E)} (h : x.outcome = none) :
    Failed (x :: l) ↔ Failed l := by
  simp [Failed, h]

theorem failed_singleton {x : Executed C E} : Failed [x] ↔ x.outcome ≠ none := by
  simp [Failed]

theorem not_failed_nil : ¬ Failed ([] : List (Executed C E)) := by
  simp [Failed]

variable {env : Environment E} {config : SagaConfig} {definition : SagaDefinition C E}
variable {s s' : Progress C E} {raised : Option (Raised E)} {acts comps : List (Executed C E)}
variable {i j k : ℕ} {step : SagaStep C E} {rest : List (SagaStep C E)}

theorem lt_of_mem_eligible (h : i ∈ eligible definition k) : i < k := by
  simp only [eligible, List.mem_filter, List.mem_reverse, List.mem_range] at h
  exact h.1

theorem eligible_succ_of_none (hstep : definition.steps[k]? = some step)
    (hcomp : step.compensation = none) : eligible definition (k + 1) = eligible definition k := by
  simp [eligible, List.range_succ, hstep, hcomp]

theorem eligible_succ_of_some {compensation : SagaAction C E}
    (hstep : definition.steps[k]? = some step) (hcomp : step.compensation = some compensation) :
    eligible definition (k + 1) = k :: eligible definition k := by
  simp [eligible, List.range_succ, hstep, hcomp]

theorem statusAt_setRecord (s : Progress C E) (k i : ℕ) (f : SagaStepRecord → SagaStepRecord) :
    statusAt (s.setRecord k f) i =
      (s.saga.steps[i]?).map fun r => if k = i then (f r).status else r.status := by
  simp only [statusAt, Progress.setRecord, List.getElem?_modify, Option.map_eq_map, Option.map_map]
  congr 1
  funext r
  by_cases hk : k = i <;> simp [hk]

theorem statusAt_setRecord_of_ne (s : Progress C E) (f : SagaStepRecord → SagaStepRecord)
    (h : k ≠ i) : statusAt (s.setRecord k f) i = statusAt s i := by
  rw [statusAt_setRecord]
  simp [h, statusAt]

/-- Setting the status of a record that exists. -/
theorem statusAt_setRecord_self {status : SagaStepStatus} {old : SagaStepStatus}
    (s : Progress C E) (f : SagaStepRecord → SagaStepRecord) (hold : statusAt s k = some old)
    (hf : ∀ r, (f r).status = status) : statusAt (s.setRecord k f) k = some status := by
  rw [statusAt_setRecord]
  obtain ⟨r, hr, _⟩ := Option.map_eq_some_iff.mp hold
  simp [hr, hf]

theorem names_setRecord (s : Progress C E) (k : ℕ) (f : SagaStepRecord → SagaStepRecord)
    (hf : ∀ r, (f r).name = r.name) :
    (s.setRecord k f).saga.steps.map SagaStepRecord.name =
      s.saga.steps.map SagaStepRecord.name := by
  refine List.ext_getElem? fun i => ?_
  simp only [Progress.setRecord, List.getElem?_map, List.getElem?_modify, Option.map_eq_map,
    Option.map_map]
  congr 1
  funext r
  by_cases hk : k = i <;> simp [hk, hf]

/-- A save that succeeds only adds to the trace. -/
theorem save_eq (hsave : ∀ n, env.save n = none) (s : Progress C E) :
    s.save env = ({ s with trace := s.trace ++ [.saved s.saga none] }, none) := by
  simp [Progress.save, hsave]

theorem executed_saved (trace : List (Event C E)) (saga : SagaInstance C) (outcome : Option E) :
    executed (trace ++ [.saved saga outcome]) = executed trace := by
  simp [executed]

theorem executed_action (trace : List (Event C E)) (x : Executed C E) :
    executed (trace ++ [.action x]) = executed trace ++ [.action x] := by
  simp [executed]

theorem executed_compensation (trace : List (Event C E)) (x : Executed C E) :
    executed (trace ++ [.compensation x]) = executed trace ++ [.compensation x] := by
  simp [executed]

/-- What `_compensate` does to the steps before `k`, with the executions `comps`. -/
structure Compensates (definition : SagaDefinition C E) (k : ℕ) (s s' : Progress C E)
    (raised : Option (Raised E)) (comps : List (Executed C E)) : Prop where
  trace : executed s'.trace = executed s.trace ++ comps.map Event.compensation
  runs : RunsUntilFailure (eligible definition k) comps
  outcomes : ∀ x ∈ comps, ∃ step ∈ definition.steps[x.index]?,
    ∃ compensation ∈ step.compensation, (compensation x.before).2 = x.outcome
  ends : (¬ Failed comps ∧ s'.saga.status = .aborted ∧ raised = none) ∨
    (Failed comps ∧ s'.saga.status = .failed ∧
      ∃ message cause, raised = some (.compensation message cause))
  compensated : ∀ i, Succeeds comps i → statusAt s' i = some .compensated
  kept : ∀ i, ¬ Succeeds comps i → statusAt s' i = statusAt s i
  names : s'.saga.steps.map SagaStepRecord.name = s.saga.steps.map SagaStepRecord.name

theorem Compensates.lt (h : Compensates definition k s s' raised comps) (hi : Succeeds comps i) :
    i < k := by
  obtain ⟨x, hx, rfl, _⟩ := hi
  exact lt_of_mem_eligible (h.runs.index_mem hx)

theorem succeeds_cons {x : Executed C E} {l : List (Executed C E)} :
    Succeeds (x :: l) i ↔ (x.index = i ∧ x.outcome = none) ∨ Succeeds l i := by
  simp [Succeeds]

theorem compensate_zero (hsave : ∀ n, env.save n = none) (s : Progress C E) :
    Compensates definition 0 s (compensate env definition 0 s).1
      (compensate env definition 0 s).2 [] := by
  simp only [compensate, save_eq hsave]
  exact {
    trace := by simp [executed_saved, Progress.touch, Progress.setStatus]
    runs := RunsUntilFailure.done
    outcomes := by simp
    ends := Or.inl ⟨not_failed_nil, rfl, rfl⟩
    compensated := by simp [Succeeds]
    kept := fun _ _ => rfl
    names := rfl }

/-- A compensation that fails ends the loop. -/
theorem compensate_fails (hsave : ∀ n, env.save n = none) {compensation : SagaAction C E} {exc : E}
    (hstep : definition.steps[k]? = some step) (hcomp : step.compensation = some compensation)
    (hdone : statusAt s k = some .completed)
    (hr : (compensation s.saga.context).2 = some exc) :
    Compensates definition (k + 1) s (compensate env definition (k + 1) s).1
      (compensate env definition (k + 1) s).2 [⟨k, s.saga.context, some exc⟩] := by
  obtain ⟨record, hrecord, hstatus⟩ := Option.map_eq_some_iff.mp hdone
  have hawait : s.await .compensation k compensation =
      ((s.await .compensation k compensation).1, some exc) := Prod.ext rfl hr
  have hkept : ∀ i, statusAt ((s.await .compensation k compensation).1.setRecord k fun r =>
      { r with error := some ("compensation failed: " ++ env.repr exc) }) i = statusAt s i := by
    intro i
    rw [statusAt_setRecord]
    simp [Progress.await, statusAt]
  simp only [compensate, hstep, hrecord, hstatus, hcomp, decide_true]
  rw [hawait]
  simp only [save_eq hsave]
  exact {
    trace := by
      rw [executed_saved]
      show executed (s.trace ++ [Event.compensation ⟨k, s.saga.context, _⟩]) = _
      rw [executed_compensation, hr]
      rfl
    runs := by
      rw [eligible_succ_of_some hstep hcomp]
      exact RunsUntilFailure.failed (x := ⟨k, s.saga.context, some exc⟩) (by simp)
    outcomes := by
      intro x hx
      obtain rfl := List.mem_singleton.mp hx
      exact ⟨step, hstep, compensation, hcomp, hr⟩
    ends := Or.inr ⟨failed_singleton.mpr (by simp), rfl, _, _, rfl⟩
    compensated := by simp [Succeeds]
    kept := fun i _ => hkept i
    names := names_setRecord _ _ _ fun _ => rfl }

/-- A compensation that succeeds is recorded and the loop goes on. -/
theorem compensate_succeeds {compensation : SagaAction C E}
    (hstep : definition.steps[k]? = some step) (hcomp : step.compensation = some compensation)
    (hdone : statusAt s k = some .completed)
    (hr : (compensation s.saga.context).2 = none) :
    compensate env definition (k + 1) s =
      compensate env definition k ((s.await .compensation k compensation).1.setRecord k
        fun r => { r with status := .compensated }) := by
  obtain ⟨record, hrecord, hstatus⟩ := Option.map_eq_some_iff.mp hdone
  have hawait : s.await .compensation k compensation =
      ((s.await .compensation k compensation).1, none) := Prod.ext rfl hr
  simp only [compensate, hstep, hrecord, hstatus, hcomp, decide_true]
  rw [hawait]

theorem Compensates.cons {compensation : SagaAction C E}
    (hstep : definition.steps[k]? = some step) (hcomp : step.compensation = some compensation)
    (hdone : statusAt s k = some .completed)
    (hr : (compensation s.saga.context).2 = none)
    (h : Compensates definition k ((s.await .compensation k compensation).1.setRecord k
      fun r => { r with status := .compensated }) s' raised comps) :
    Compensates definition (k + 1) s s' raised (⟨k, s.saga.context, none⟩ :: comps) := by
  have hself : statusAt ((s.await .compensation k compensation).1.setRecord k
      fun r => { r with status := .compensated }) k = some .compensated :=
    statusAt_setRecord_self _ _ hdone fun _ => rfl
  exact {
    trace := by
      rw [h.trace]
      show executed (s.trace ++ [Event.compensation ⟨k, s.saga.context, _⟩]) ++ _ = _
      rw [executed_compensation, hr]
      simp
    runs := by
      rw [eligible_succ_of_some hstep hcomp]
      exact RunsUntilFailure.succeeded (x := ⟨k, s.saga.context, none⟩) rfl h.runs
    outcomes := by
      intro x hx
      rcases List.mem_cons.mp hx with rfl | hx
      · exact ⟨step, hstep, compensation, hcomp, hr⟩
      · exact h.outcomes x hx
    ends := by
      rw [failed_cons_of_none rfl]
      exact h.ends
    compensated := by
      intro i hi
      by_cases hsi : Succeeds comps i
      · exact h.compensated i hsi
      · rcases succeeds_cons.mp hi with ⟨rfl, _⟩ | hi
        · rw [h.kept _ hsi, hself]
        · exact absurd hi hsi
    kept := by
      intro i hi
      rw [succeeds_cons, not_or, not_and_or] at hi
      obtain ⟨hne | hne, hsi⟩ := hi
      · rw [h.kept i hsi, statusAt_setRecord_of_ne _ _ hne]
        rfl
      · exact absurd rfl hne
    names := h.names.trans (names_setRecord _ _ _ fun _ => rfl) }

/-- The loop compensates the completed steps before `k`. -/
theorem compensate_spec (hsave : ∀ n, env.save n = none) (hk : k ≤ definition.steps.length)
    (hdone : ∀ j < k, statusAt s j = some .completed) :
    ∃ comps, Compensates definition k s (compensate env definition k s).1
      (compensate env definition k s).2 comps := by
  induction k generalizing s with
  | zero => exact ⟨[], compensate_zero hsave s⟩
  | succ k ih =>
    obtain ⟨step, hstep⟩ : ∃ step, definition.steps[k]? = some step :=
      ⟨_, List.getElem?_eq_getElem (by omega)⟩
    have hk' := hdone k (by omega)
    cases hcomp : step.compensation with
    | none =>
      obtain ⟨record, hrecord, _⟩ := Option.map_eq_some_iff.mp hk'
      obtain ⟨comps, h⟩ := ih (s := s) (by omega) fun j hj => hdone j (by omega)
      have heq : compensate env definition (k + 1) s = compensate env definition k s := by
        simp [compensate, hstep, hrecord, hcomp]
      rw [heq]
      refine ⟨comps, { h with runs := ?_ }⟩
      rw [eligible_succ_of_none hstep hcomp]
      exact h.runs
    | some compensation =>
      cases hr : (compensation s.saga.context).2 with
      | some exc => exact ⟨_, compensate_fails hsave hstep hcomp hk' hr⟩
      | none =>
        rw [compensate_succeeds hstep hcomp hk' hr]
        obtain ⟨comps, h⟩ := ih (s := (s.await .compensation k compensation).1.setRecord k
          fun r => { r with status := .compensated }) (by omega) fun j hj => by
            rw [statusAt_setRecord_of_ne _ _ (by omega)]
            exact hdone j (by omega)
        exact ⟨_, h.cons hstep hcomp hk' hr⟩

/-- How a run ends whose failing action led to the compensations `comps`. -/
def Ends (config : SagaConfig) (s' : Progress C E) (raised : Option (Raised E))
    (comps : List (Executed C E)) : Prop :=
  (¬ Failed comps ∧ s'.saga.status = .aborted ∧ config.raiseOnAbort = false ∧ raised = none) ∨
  (¬ Failed comps ∧ s'.saga.status = .aborted ∧ config.raiseOnAbort = true ∧
    ∃ message sagaId step cause, raised = some (.aborted message sagaId step cause)) ∨
  (Failed comps ∧ s'.saga.status = .failed ∧
    ∃ message cause, raised = some (.compensation message cause))

/-- What the loop does from step `k` on, with the executions `acts` and `comps`. -/
structure Runs (config : SagaConfig) (definition : SagaDefinition C E) (k : ℕ)
    (s s' : Progress C E) (raised : Option (Raised E)) (acts comps : List (Executed C E)) :
    Prop where
  trace : executed s'.trace =
    executed s.trace ++ acts.map Event.action ++ comps.map Event.compensation
  runs : RunsUntilFailure (List.range' k (definition.steps.length - k)) acts
  outcomes : ∀ x ∈ acts, ∃ step ∈ definition.steps[x.index]?,
    (step.action x.before).2 = x.outcome
  compensationOutcomes : ∀ x ∈ comps, ∃ step ∈ definition.steps[x.index]?,
    ∃ compensation ∈ step.compensation, (compensation x.before).2 = x.outcome
  ends : (¬ Failed acts ∧ comps = [] ∧ s'.saga.status = .completed ∧ raised = none) ∨
    ∃ x ∈ acts, x.outcome ≠ none ∧ RunsUntilFailure (eligible definition x.index) comps ∧
      Ends config s' raised comps
  failed : ∀ x ∈ acts, x.outcome ≠ none → statusAt s' x.index = some .failed
  compensated : ∀ i, Succeeds comps i → statusAt s' i = some .compensated
  completed : ∀ i, Succeeds acts i → ¬ Succeeds comps i → statusAt s' i = some .completed
  kept : ∀ i, (∀ x ∈ acts, x.index ≠ i) → ¬ Succeeds comps i → statusAt s' i = statusAt s i
  names : s'.saga.steps.map SagaStepRecord.name = s.saga.steps.map SagaStepRecord.name

theorem forward_nil (hsave : ∀ n, env.save n = none) (hk : definition.steps.length ≤ k)
    (s : Progress C E) :
    Runs config definition k s (forward env config definition [] k s).1
      (forward env config definition [] k s).2 [] [] := by
  simp only [forward, save_eq hsave]
  exact {
    trace := by simp [executed_saved, Progress.touch, Progress.setStatus]
    runs := by
      rw [Nat.sub_eq_zero_of_le hk]
      exact RunsUntilFailure.done
    outcomes := by simp
    compensationOutcomes := by simp
    ends := Or.inl ⟨not_failed_nil, rfl, rfl, rfl⟩
    failed := by simp
    compensated := by simp [Succeeds]
    completed := by simp [Succeeds]
    kept := fun _ _ _ => rfl
    names := rfl }

theorem range'_of_lt {n : ℕ} (h : k < n) :
    List.range' k (n - k) = k :: List.range' (k + 1) (n - (k + 1)) := by
  rw [show n - k = (n - (k + 1)) + 1 by omega, List.range'_succ]

/-- The state that the handler of a failing action saves before it compensates. -/
def markFailed (env : Environment E) (k : ℕ) (exc : E) (s : Progress C E) : Progress C E :=
  ((((s.setRecord k fun r => { r with status := .failed, error := some (env.repr exc) }).setStatus
    .compensating).touch env).save env).1

theorem statusAt_markFailed_self {exc : E} {old : SagaStepStatus} (hold : statusAt s k = some old) :
    statusAt (markFailed env k exc s) k = some .failed :=
  statusAt_setRecord_self s _ hold fun _ => rfl

theorem statusAt_markFailed_of_ne {exc : E} (h : k ≠ j) :
    statusAt (markFailed env k exc s) j = statusAt s j :=
  statusAt_setRecord_of_ne s _ h

/-- After the compensations the handler only decides between raising and returning. -/
theorem abort_ends (config : SagaConfig) (step : SagaStep C E)
    (hsave : ∀ n, env.save n = none) {exc : E}
    (hcomp : compensate env definition k (markFailed env k exc s) = (s', raised))
    (h : Compensates definition k (markFailed env k exc s) s' raised comps) :
    ∃ raised', abort env config definition k step exc s = (s', raised') ∧
      Ends config s' raised' comps := by
  simp only [markFailed, save_eq hsave] at hcomp
  simp only [abort, save_eq hsave, hcomp]
  rcases h.ends with ⟨hn, hst, rfl⟩ | ⟨hf, hst, message, cause, rfl⟩
  · by_cases hc : config.raiseOnAbort = true
    · exact ⟨_, if_pos ⟨hc, hst⟩, Or.inr (Or.inl ⟨hn, hst, hc, _, _, _, _, rfl⟩)⟩
    · exact ⟨none, if_neg fun h => hc h.1, Or.inl ⟨hn, hst, by simpa using hc, rfl⟩⟩
  · exact ⟨_, rfl, Or.inr (Or.inr ⟨hf, hst, message, cause, rfl⟩)⟩

/-- The handler of a failing action marks the step and compensates the steps before it. -/
theorem forward_fails (hsave : ∀ n, env.save n = none) {exc : E}
    (hstep : definition.steps[k]? = some step) (hk : k < definition.steps.length)
    (hdone : ∀ j < k, statusAt s j = some .completed) (hpending : statusAt s k = some .pending)
    (hr : (step.action s.saga.context).2 = some exc) :
    ∃ comps, Runs config definition k s (forward env config definition (step :: rest) k s).1
      (forward env config definition (step :: rest) k s).2
      [⟨k, s.saga.context, some exc⟩] comps := by
  have hawait : s.await .action k step.action =
      ((s.await .action k step.action).1, some exc) := Prod.ext rfl hr
  have hself : statusAt (markFailed env k exc (s.await .action k step.action).1) k = some .failed :=
    statusAt_markFailed_self hpending
  have hother : ∀ j, k ≠ j → statusAt (markFailed env k exc (s.await .action k step.action).1) j =
      statusAt s j := fun j hj => statusAt_markFailed_of_ne hj
  obtain ⟨comps, hcomps⟩ := compensate_spec
      (s := markFailed env k exc (s.await .action k step.action).1) hsave hk.le fun j hj => by
    rw [hother j (by omega)]
    exact hdone j hj
  obtain ⟨raised', habort, hends⟩ := abort_ends config step hsave rfl hcomps
  rw [forward, hawait]
  simp only [habort]
  refine ⟨comps, ?_⟩
  exact {
    trace := by
      rw [hcomps.trace, markFailed, save_eq hsave, executed_saved]
      show executed (s.trace ++ [Event.action ⟨k, s.saga.context, _⟩]) ++ _ = _
      rw [executed_action, hr]
      rfl
    runs := by
      rw [range'_of_lt hk]
      exact RunsUntilFailure.failed (x := ⟨k, s.saga.context, some exc⟩) (by simp)
    outcomes := by
      intro x hx
      obtain rfl := List.mem_singleton.mp hx
      exact ⟨step, hstep, hr⟩
    compensationOutcomes := hcomps.outcomes
    ends := Or.inr ⟨_, List.mem_singleton.mpr rfl, by simp, hcomps.runs, hends⟩
    failed := by
      intro x hx _
      obtain rfl := List.mem_singleton.mp hx
      rw [hcomps.kept k fun hs => (hcomps.lt hs).ne rfl, hself]
    compensated := hcomps.compensated
    completed := by simp [Succeeds]
    kept := by
      intro i hi hs
      rw [hcomps.kept i hs, hother i (hi _ (List.mem_singleton.mpr rfl))]
    names := hcomps.names.trans (names_setRecord _ _ _ fun _ => rfl) }

/-- The state in which the loop goes on after the action of step `k` succeeded. -/
def advance (env : Environment E) (k : ℕ) (step : SagaStep C E) (s : Progress C E) :
    Progress C E :=
  ((((s.await .action k step.action).1.setRecord k fun r =>
    { r with status := .completed }).touch env).save env).1

theorem forward_succeeds (hsave : ∀ n, env.save n = none)
    (hr : (step.action s.saga.context).2 = none) :
    forward env config definition (step :: rest) k s =
      forward env config definition rest (k + 1) (advance env k step s) := by
  have hawait : s.await .action k step.action =
      ((s.await .action k step.action).1, none) := Prod.ext rfl hr
  rw [forward, hawait]
  simp only [advance, save_eq hsave]

theorem statusAt_advance_self (hpending : statusAt s k = some .pending) :
    statusAt (advance env k step s) k = some .completed :=
  statusAt_setRecord_self (s.await .action k step.action).1 _ hpending fun _ => rfl

theorem statusAt_advance_of_ne (h : k ≠ j) :
    statusAt (advance env k step s) j = statusAt s j :=
  statusAt_setRecord_of_ne (s.await .action k step.action).1 _ h

theorem Runs.cons (hsave : ∀ n, env.save n = none) (hstep : definition.steps[k]? = some step)
    (hk : k < definition.steps.length) (hpending : statusAt s k = some .pending)
    (hr : (step.action s.saga.context).2 = none)
    (h : Runs config definition (k + 1) (advance env k step s) s' raised acts comps) :
    Runs config definition k s s' raised (⟨k, s.saga.context, none⟩ :: acts) comps := by
  have hlater : ∀ x ∈ acts, x.index ≠ k := by
    intro x hx hxk
    have := List.left_le_of_mem_range' (h.runs.index_mem hx)
    omega
  exact {
    trace := by
      rw [h.trace]
      simp only [advance, save_eq hsave, executed_saved]
      show executed (s.trace ++ [Event.action ⟨k, s.saga.context, _⟩]) ++ _ ++ _ = _
      rw [executed_action, hr]
      simp
    runs := by
      rw [range'_of_lt hk]
      exact RunsUntilFailure.succeeded (x := ⟨k, s.saga.context, none⟩) rfl h.runs
    outcomes := by
      intro x hx
      rcases List.mem_cons.mp hx with rfl | hx
      · exact ⟨step, hstep, hr⟩
      · exact h.outcomes x hx
    compensationOutcomes := h.compensationOutcomes
    ends := by
      rw [failed_cons_of_none rfl]
      rcases h.ends with hdone | ⟨x, hx, hf, hruns, hends⟩
      · exact Or.inl hdone
      · exact Or.inr ⟨x, List.mem_cons_of_mem _ hx, hf, hruns, hends⟩
    failed := by
      intro x hx hf
      rcases List.mem_cons.mp hx with rfl | hx
      · exact absurd rfl hf
      · exact h.failed x hx hf
    compensated := h.compensated
    completed := by
      intro i hi hs
      rcases succeeds_cons.mp hi with ⟨rfl, _⟩ | hi
      · rw [h.kept _ hlater hs]
        exact statusAt_advance_self hpending
      · exact h.completed i hi hs
    kept := by
      intro i hi hs
      rw [h.kept i (fun x hx => hi x (List.mem_cons_of_mem _ hx)) hs]
      exact statusAt_advance_of_ne (hi _ List.mem_cons_self)
    names := h.names.trans (names_setRecord _ _ _ fun _ => rfl) }

/-- The loop runs the actions from step `k` on and compensates when one fails. -/
theorem forward_spec (hsave : ∀ n, env.save n = none) (hrest : rest = definition.steps.drop k)
    (hdone : ∀ j < k, statusAt s j = some .completed)
    (hpending : ∀ j, k ≤ j → j < definition.steps.length → statusAt s j = some .pending) :
    ∃ acts comps, Runs config definition k s (forward env config definition rest k s).1
      (forward env config definition rest k s).2 acts comps := by
  induction rest generalizing k s with
  | nil => exact ⟨[], [], forward_nil hsave (List.drop_eq_nil_iff.mp hrest.symm) s⟩
  | cons step rest ih =>
    have hstep : definition.steps[k]? = some step := by
      have := congrArg (·[0]?) hrest
      simpa using this.symm
    obtain ⟨hk, _⟩ := List.getElem?_eq_some_iff.mp hstep
    cases hr : (step.action s.saga.context).2 with
    | some exc =>
      obtain ⟨comps, h⟩ := forward_fails hsave hstep hk hdone (hpending k (le_refl k) hk) hr
      exact ⟨_, comps, h⟩
    | none =>
      rw [forward_succeeds hsave hr]
      obtain ⟨acts, comps, h⟩ := ih (s := advance env k step s) (k := k + 1)
        (by simpa using congrArg List.tail hrest)
        (fun j hj => by
          by_cases hjk : k = j
          · subst hjk
            exact statusAt_advance_self (hpending k (le_refl k) hk)
          · rw [statusAt_advance_of_ne hjk]
            exact hdone j (by omega))
        (fun j hkj hj => by
          rw [statusAt_advance_of_ne (by omega)]
          exact hpending j (by omega) hj)
      exact ⟨_, comps, h.cons hsave hstep hk (hpending k (le_refl k) hk) hr⟩

/-- A compensated step ran its action. -/
theorem Runs.action_of_compensation (h : Runs config definition 0 s s' raised acts comps)
    (hi : Succeeds comps i) : ∃ x ∈ acts, x.index = i := by
  obtain ⟨y, hy, rfl, _⟩ := hi
  rcases h.ends with ⟨_, rfl, _⟩ | ⟨x, hx, hf, hruns, _⟩
  · simp at hy
  · have hlt := lt_of_mem_eligible (hruns.index_mem hy)
    exact h.runs.covers (Nat.zero_le _) (Or.inr ⟨x, hx, hf, hlt.le⟩)

/-- Each record is in one of the four states that the executions leave it in. -/
theorem Runs.record_cases (h : Runs config definition 0 s s' raised acts comps)
    (hpending : statusAt s i = some .pending) :
    (Succeeds comps i ∧ statusAt s' i = some .compensated) ∨
    (¬ Succeeds comps i ∧ Succeeds acts i ∧ statusAt s' i = some .completed) ∨
    (¬ Succeeds comps i ∧ (∃ x ∈ acts, x.index = i ∧ x.outcome ≠ none) ∧
      statusAt s' i = some .failed) ∨
    (¬ Succeeds comps i ∧ (∀ x ∈ acts, x.index ≠ i) ∧ statusAt s' i = some .pending) := by
  by_cases hc : Succeeds comps i
  · exact Or.inl ⟨hc, h.compensated i hc⟩
  · by_cases ha : ∃ x ∈ acts, x.index = i
    · obtain ⟨x, hx, rfl⟩ := ha
      by_cases ho : x.outcome = none
      · have hs : Succeeds acts x.index := ⟨x, hx, rfl, ho⟩
        exact Or.inr (Or.inl ⟨hc, hs, h.completed _ hs hc⟩)
      · exact Or.inr (Or.inr (Or.inl ⟨hc, ⟨x, hx, rfl, ho⟩, h.failed x hx ho⟩))
    · have hno : ∀ x ∈ acts, x.index ≠ i := fun x hx hxi => ha ⟨x, hx, hxi⟩
      exact Or.inr (Or.inr (Or.inr ⟨hc, hno, (h.kept i hno hc).trans hpending⟩))

theorem Runs.pending_iff (h : Runs config definition 0 s s' raised acts comps)
    (hpending : statusAt s i = some .pending) :
    statusAt s' i = some .pending ↔ ∀ x ∈ acts, x.index ≠ i := by
  constructor
  · intro hst x hx hxi
    rcases h.record_cases hpending with ⟨_, hs⟩ | ⟨_, _, hs⟩ | ⟨_, _, hs⟩ | ⟨_, hno, _⟩
    · simp [hst] at hs
    · simp [hst] at hs
    · simp [hst] at hs
    · exact hno x hx hxi
  · intro hno
    rcases h.record_cases hpending with ⟨hc, _⟩ | ⟨_, ⟨x, hx, hxi, _⟩, _⟩ |
        ⟨_, ⟨x, hx, hxi, _⟩, _⟩ | ⟨_, _, hs⟩
    · obtain ⟨x, hx, hxi⟩ := h.action_of_compensation hc
      exact absurd hxi (hno x hx)
    · exact absurd hxi (hno x hx)
    · exact absurd hxi (hno x hx)
    · exact hs

theorem Runs.failed_iff (h : Runs config definition 0 s s' raised acts comps)
    (hpending : statusAt s i = some .pending) :
    statusAt s' i = some .failed ↔ ∃ x ∈ acts, x.index = i ∧ x.outcome ≠ none := by
  constructor
  · intro hst
    rcases h.record_cases hpending with ⟨_, hs⟩ | ⟨_, _, hs⟩ | ⟨_, hx, _⟩ | ⟨_, _, hs⟩
    · simp [hst] at hs
    · simp [hst] at hs
    · exact hx
    · simp [hst] at hs
  · intro hex
    obtain ⟨x, hx, hxi, hf⟩ := hex
    exact hxi ▸ h.failed x hx hf

theorem Runs.compensated_iff (h : Runs config definition 0 s s' raised acts comps)
    (hpending : statusAt s i = some .pending) :
    statusAt s' i = some .compensated ↔ Succeeds comps i := by
  refine ⟨fun hst => ?_, h.compensated i⟩
  rcases h.record_cases hpending with ⟨hc, _⟩ | ⟨_, _, hs⟩ | ⟨_, _, hs⟩ | ⟨_, _, hs⟩
  · exact hc
  · simp [hst] at hs
  · simp [hst] at hs
  · simp [hst] at hs

theorem Runs.completed_iff (h : Runs config definition 0 s s' raised acts comps)
    (hpending : statusAt s i = some .pending) :
    statusAt s' i = some .completed ↔ Succeeds acts i ∧ ¬ Succeeds comps i := by
  refine ⟨fun hst => ?_, fun hboth => h.completed i hboth.1 hboth.2⟩
  rcases h.record_cases hpending with ⟨_, hs⟩ | ⟨hc, ha, _⟩ | ⟨_, _, hs⟩ | ⟨_, _, hs⟩
  · simp [hst] at hs
  · exact ⟨ha, hc⟩
  · simp [hst] at hs
  · simp [hst] at hs

theorem Runs.contract (h : Runs config definition 0 s s' raised acts comps)
    (htrace : executed s.trace = [])
    (hpending : ∀ i < definition.steps.length, statusAt s i = some .pending)
    (hnames : s.saga.steps.map SagaStepRecord.name = definition.steps.map SagaStep.name) :
    Contract config definition s' raised acts comps := by
  have hends : (¬ Failed acts ∧ comps = [] ∧ s'.saga.status = .completed ∧ raised = none) ∨
      (Failed acts ∧ Ends config s' raised comps) := by
    rcases h.ends with hdone | ⟨x, hx, hf, _, hends⟩
    · exact Or.inl hdone
    · exact Or.inr ⟨⟨x, hx, hf⟩, hends⟩
  exact {
    trace := by rw [h.trace, htrace, List.nil_append]
    actions := by
      rw [List.range_eq_range']
      exact h.runs
    actionOutcomes := h.outcomes
    noCompensations := by
      intro hn
      rcases h.ends with ⟨_, hc, _⟩ | ⟨x, hx, hf, _⟩
      · exact hc
      · exact absurd ⟨x, hx, hf⟩ hn
    compensations := by
      intro x hx hf
      rcases h.ends with ⟨hn, _⟩ | ⟨y, hy, hyf, hruns, _⟩
      · exact absurd ⟨x, hx, hf⟩ hn
      · rw [h.runs.failed_unique hx hy hf hyf]
        exact hruns
    compensationOutcomes := h.compensationOutcomes
    completed := by
      rcases hends with ⟨hn, _, hst, _⟩ | ⟨hf, ⟨_, hst, _⟩ | ⟨_, hst, _⟩ | ⟨_, hst, _⟩⟩ <;>
        simp [*]
    aborted := by
      rcases hends with ⟨hn, _, hst, _⟩ | ⟨hf, ⟨hc, hst, _⟩ | ⟨hc, hst, _⟩ | ⟨hc, hst, _⟩⟩ <;>
        simp [*]
    failed := by
      rcases hends with ⟨hn, hc, hst, _⟩ | ⟨hf, ⟨hc, hst, _⟩ | ⟨hc, hst, _⟩ | ⟨hc, hst, _⟩⟩ <;>
        simp [*, not_failed_nil]
    raisesCompensation := by
      rcases hends with ⟨_, _, hst, rfl⟩ | ⟨_, ⟨_, hst, _, rfl⟩ | ⟨_, hst, _, _, _, _, _, rfl⟩ |
          ⟨_, hst, _, _, rfl⟩⟩ <;> simp [hst]
    raisesAborted := by
      rcases hends with ⟨_, _, hst, rfl⟩ | ⟨_, ⟨_, hst, hc, rfl⟩ | ⟨_, hst, hc, _, _, _, _, rfl⟩ |
          ⟨_, hst, _, _, rfl⟩⟩ <;> simp [*]
    returns := by
      rcases hends with ⟨_, _, hst, rfl⟩ | ⟨_, ⟨_, hst, hc, rfl⟩ | ⟨_, hst, hc, _, _, _, _, rfl⟩ |
          ⟨_, hst, _, _, rfl⟩⟩ <;> simp [*]
    records := h.names.trans hnames
    recordPending := fun i hi => h.pending_iff (hpending i hi)
    recordFailed := fun i hi => h.failed_iff (hpending i hi)
    recordCompensated := fun i hi => h.compensated_iff (hpending i hi)
    recordCompleted := fun i hi => h.completed_iff (hpending i hi) }

/-- Every run of a saga whose saves succeed meets the contract. -/
theorem run_contract [EmptyCollection C] (hsave : ∀ n, env.save n = none)
    (context : Option C) (sagaId : Option String) :
    ∃ acts comps, Contract config definition (run env config definition context sagaId).1
      (run env config definition context sagaId).2 acts comps := by
  have hpending : ∀ i < definition.steps.length,
      statusAt (create env definition context sagaId) i = some .pending := by
    intro i hi
    simp [statusAt, create, hi]
  have hnames : (create env definition context sagaId).saga.steps.map SagaStepRecord.name =
      definition.steps.map SagaStep.name := by
    simp [create, Function.comp_def]
  simp only [run, save_eq hsave]
  let created : Progress C E := { create env definition context sagaId with
    trace := (create env definition context sagaId).trace ++
      [.saved (create env definition context sagaId).saga none] }
  obtain ⟨acts, comps, h⟩ : ∃ acts comps, Runs config definition 0 created
      (forward env config definition definition.steps 0 created).1
      (forward env config definition definition.steps 0 created).2 acts comps :=
    forward_spec hsave rfl (fun j hj => absurd hj (Nat.not_lt_zero j)) fun j _ hj => hpending j hj
  exact ⟨acts, comps, h.contract rfl hpending hnames⟩

/-- The second of two steps raises. -/
def failingTransfer : SagaDefinition (List String) String where
  name := "demo"
  steps := [
    { name := "s1", action := fun c => (c ++ ["s1"], none),
      compensation := some fun c => (c ++ ["s1.comp"], none) },
    { name := "s2", action := fun c => (c, some "RuntimeError('boom')") }]
  nonempty := by simp

def reliable : Environment String where
  time := fun n => n
  uuid4 := "7d1f"
  save := fun _ => none
  repr := id
  reprStr := fun s => "'" ++ s ++ "'"

theorem run_contract_aborted :
    (run reliable {} failingTransfer none none).1.saga.context = ["s1", "s1.comp"] ∧
    (run reliable {} failingTransfer none none).1.saga.status = .aborted ∧
    ∃ acts comps, Contract {} failingTransfer (run reliable {} failingTransfer none none).1
      (run reliable {} failingTransfer none none).2 acts comps :=
  ⟨by decide, by decide, run_contract (fun _ => rfl) none none⟩

end Taas.Saga
