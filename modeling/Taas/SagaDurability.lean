import Taas.SagaErrors

/-!
What the last saved record knows of the executions so far, at every point where a run may
crash. The loop over the actions saves after each of them. The compensation loop saves
only at its end, so every compensation it has run by then is missing from the record.
-/
namespace Taas.Saga

variable {C E : Type}

/-- The record that a crash at the end of the trace leaves. -/
def lastSaved (trace : List (Event C E)) : Option (SagaInstance C) :=
  trace.reverse.findSome? fun
    | .saved saga none => some saga
    | _ => none

/-- The status of step `i` in the saved record. -/
def recorded (trace : List (Event C E)) (i : ℕ) : Option SagaStepStatus :=
  (lastSaved trace).bind fun saga => (saga.steps[i]?).map SagaStepRecord.status

/-- The action is recorded as run: COMPLETED, or COMPENSATED since. -/
def ActionRecorded (status : Option SagaStepStatus) : Prop :=
  status = some .completed ∨ status = some .compensated

instance (status : Option SagaStepStatus) : Decidable (ActionRecorded status) := by
  unfold ActionRecorded
  infer_instance

/-- The executions to success that a record with these statuses does not know of. -/
def missingFrom (status : ℕ → Option SagaStepStatus) (trace : List (Event C E)) : ℕ :=
  trace.countP fun
    | .action x => x.outcome.isNone ∧ ¬ ActionRecorded (status x.index)
    | .compensation x => x.outcome.isNone ∧ status x.index ≠ some .compensated
    | .saved _ _ => false

/-- What is recorded was executed. -/
structure Sound (trace : List (Event C E)) : Prop where
  actions : ∀ i, ActionRecorded (recorded trace i) → Completed trace i
  compensations : ∀ i, recorded trace i = some .compensated → Compensated trace i

/-- In addition, at most one execution is not recorded. -/
structure Durable (trace : List (Event C E)) : Prop extends Sound trace where
  missing : missingFrom (recorded trace) trace ≤ 1

/-- The property holds of every prefix. -/
def Always {A : Type} (P : List A → Prop) (l : List A) : Prop := ∀ p, p <+: l → P p

/-- At most one compensation succeeds before the loop saves again. -/
def AtMostOneUnsaved (env : Environment E) (k : ℕ) (acts comps : List (Executed C E)) : Prop :=
  Failed acts → (∀ m ≤ k + acts.length, env.save m = none) →
    (comps.countP fun x => x.outcome.isNone) ≤ 1

variable {env : Environment E} {config : SagaConfig} {definition : SagaDefinition C E}
variable {s : Progress C E} {i k : ℕ} {step : SagaStep C E} {rest : List (SagaStep C E)}
variable {trace : List (Event C E)} {exc saveExc : E} {saga : SagaInstance C} {x : Executed C E}
variable {status : ℕ → Option SagaStepStatus}

theorem always_concat {A : Type} {P : List A → Prop} {l : List A} {a : A} :
    Always P (l ++ [a]) ↔ Always P l ∧ P (l ++ [a]) := by
  constructor
  · intro h
    exact ⟨fun p hp => h p (hp.trans (List.prefix_append l [a])), h _ (List.prefix_refl _)⟩
  · rintro ⟨hl, ha⟩ p hp
    rcases List.prefix_concat_iff.mp hp with rfl | hp
    · exact ha
    · exact hl p hp

theorem Always.self {A : Type} {P : List A → Prop} {l : List A} (h : Always P l) : P l :=
  h l (List.prefix_refl l)

@[simp] theorem recorded_action : recorded (trace ++ [.action x]) = recorded trace := by
  funext i
  simp [recorded, lastSaved]

@[simp] theorem recorded_compensation :
    recorded (trace ++ [.compensation x]) = recorded trace := by
  funext i
  simp [recorded, lastSaved]

@[simp] theorem recorded_raised :
    recorded (trace ++ [.saved saga (some exc)]) = recorded trace := by
  funext i
  simp [recorded, lastSaved]

@[simp] theorem recorded_saved : recorded (trace ++ [.saved saga none]) =
    fun i => (saga.steps[i]?).map SagaStepRecord.status := by
  funext i
  simp [recorded, lastSaved]

@[simp] theorem missingFrom_saved {outcome : Option E} :
    missingFrom status (trace ++ [.saved saga outcome]) = missingFrom status trace := by
  simp [missingFrom]

theorem missingFrom_action (h : ¬ ActionRecorded (status k)) {before : C} :
    missingFrom status (trace ++ [.action ⟨k, before, none⟩]) = missingFrom status trace + 1 := by
  simp [missingFrom, h]

theorem missingFrom_action_raised {before : C} :
    missingFrom status (trace ++ [.action ⟨k, before, some exc⟩]) = missingFrom status trace := by
  simp [missingFrom]

theorem missingFrom_compensation (h : status k ≠ some .compensated) {before : C} :
    missingFrom status (trace ++ [.compensation ⟨k, before, none⟩]) =
      missingFrom status trace + 1 := by
  simp [missingFrom, h]

theorem missingFrom_compensation_raised {before : C} :
    missingFrom status (trace ++ [.compensation ⟨k, before, some exc⟩]) =
      missingFrom status trace := by
  simp [missingFrom]

theorem missingFrom_eq_zero (hactions : ∀ i, Completed trace i → ActionRecorded (status i))
    (hcomps : ∀ i, Compensated trace i → status i = some .compensated) :
    missingFrom status trace = 0 := by
  refine List.countP_eq_zero.mpr fun event hmem => ?_
  match event, hmem with
  | .action ⟨i, before, none⟩, hmem => simp [hactions i ⟨before, hmem⟩]
  | .action ⟨i, before, some _⟩, _ => simp
  | .compensation ⟨i, before, none⟩, hmem => simp [hcomps i ⟨before, hmem⟩]
  | .compensation ⟨i, before, some _⟩, _ => simp
  | .saved _ _, _ => simp

/-- The statuses agree with what was executed. -/
structure Accounts (status : ℕ → Option SagaStepStatus) (trace : List (Event C E)) : Prop where
  actions : ∀ i, Completed trace i ↔ ActionRecorded (status i)
  compensations : ∀ i, Compensated trace i ↔ status i = some .compensated

theorem Accounts.missing (h : Accounts status trace) : missingFrom status trace = 0 :=
  missingFrom_eq_zero (fun i => (h.actions i).mp) fun i => (h.compensations i).mp

theorem Accounts.durable (h : Accounts status trace) (hrec : recorded trace = status) :
    Durable trace where
  actions i := by
    rw [hrec]
    exact (h.actions i).mpr
  compensations i := by
    rw [hrec]
    exact (h.compensations i).mpr
  missing := by
    rw [hrec, h.missing]
    exact Nat.zero_le 1

theorem Accounts.saved (h : Accounts status trace) (saga : SagaInstance C) (outcome : Option E) :
    Accounts status (trace ++ [.saved saga outcome]) := by
  constructor
  · intro i
    rw [completed_saved, h.actions]
  · intro i
    rw [compensated_saved, h.compensations]

/-- A save of such statuses keeps the record durable, whether it raises or not. -/
theorem Accounts.durable_save (h : Accounts status trace)
    (hsaga : status = fun i => (saga.steps[i]?).map SagaStepRecord.status) (hdur : Durable trace)
    {outcome : Option E} : Durable (trace ++ [.saved saga outcome]) := by
  cases outcome with
  | none =>
    apply (h.saved saga none).durable
    rw [recorded_saved, hsaga]
  | some exc => exact {
      actions := fun i hi => completed_saved.mpr (hdur.actions i (by simpa using hi))
      compensations := fun i hi => compensated_saved.mpr (hdur.compensations i (by simpa using hi))
      missing := by
        rw [recorded_raised, missingFrom_saved]
        exact hdur.missing }

theorem Accounts.compensation_raised (h : Accounts status trace) {before : C} :
    Accounts status (trace ++ [.compensation ⟨k, before, some exc⟩]) := by
  constructor
  · intro i
    rw [completed_compensation, h.actions]
  · intro i
    rw [compensated_compensation, h.compensations]
    simp

theorem Durable.compensation_raised (h : Durable trace) (k : ℕ) (before : C) (exc : E) :
    Durable (trace ++ [.compensation ⟨k, before, some exc⟩]) where
  actions i hi := completed_compensation.mpr (h.actions i (by simpa using hi))
  compensations i hi :=
    compensated_compensation.mpr (Or.inl (h.compensations i (by simpa using hi)))
  missing := by
    rw [recorded_compensation, missingFrom_compensation_raised]
    exact h.missing

theorem Accounts.compensation {status' : ℕ → Option SagaStepStatus} (h : Accounts status trace)
    (hdone : status k = some .completed) (hself : status' k = some .compensated)
    (hother : ∀ i, k ≠ i → status' i = status i) {before : C} :
    Accounts status' (trace ++ [.compensation ⟨k, before, none⟩]) := by
  constructor
  · intro i
    rw [completed_compensation, h.actions]
    by_cases hki : k = i
    · subst hki
      simp [hself, hdone, ActionRecorded]
    · rw [hother i hki]
  · intro i
    rw [compensated_compensation, h.compensations]
    by_cases hki : k = i
    · subst hki
      simp [hself]
    · simp [hother i hki, hki]

theorem Sound.compensation (h : Sound trace) {x : Executed C E} :
    Sound (trace ++ [.compensation x]) := by
  constructor
  · intro i hi
    rw [recorded_compensation] at hi
    rw [completed_compensation]
    exact h.actions i hi
  · intro i hi
    rw [recorded_compensation] at hi
    rw [compensated_compensation]
    exact Or.inl (h.compensations i hi)

/-- The saved record cannot know of a compensation that has just run. -/
theorem missing_compensation (hacc : Accounts status trace) (hsound : Sound trace)
    (hdone : status k = some .completed) (before : C) :
    missingFrom (recorded (trace ++ [.compensation ⟨k, before, none⟩]))
        (trace ++ [.compensation ⟨k, before, none⟩]) =
      missingFrom (recorded trace) trace + 1 := by
  have hunrecorded : recorded trace k ≠ some .compensated := by
    intro hrec
    have hst := (hacc.compensations k).mp (hsound.compensations k hrec)
    simp [hdone] at hst
  rw [recorded_compensation, missingFrom_compensation hunrecorded]

/-- The crash points of `_compensate`: the compensations that succeed add up until its save. -/
theorem compensate_durable (hk : k ≤ definition.steps.length)
    (hdone : ∀ j < k, statusAt s j = some .completed) (hacc : Accounts (statusAt s) s.trace)
    (hsound : Sound s.trace) :
    Always Durable (compensate env definition k s).1.trace ↔
      Always Durable s.trace ∧ missingFrom (recorded s.trace) s.trace +
        ((execute (compensationPlan definition k) s.saga.context).1.countP
          fun x => x.outcome.isNone) ≤ 1 := by
  induction k generalizing s with
  | zero =>
    have htrace : (compensate env definition 0 s).1.trace =
        s.trace ++ [.saved ((s.setStatus .aborted).touch env).saga (env.save s.saves)] := rfl
    rw [htrace, always_concat]
    constructor
    · intro hall
      exact ⟨hall.1, hall.1.self.missing⟩
    · intro hall
      have hsaga : statusAt s = fun i =>
          (((s.setStatus .aborted).touch env).saga.steps[i]?).map SagaStepRecord.status := rfl
      exact ⟨hall.1, hacc.durable_save hsaga hall.1.self⟩
  | succ k ih =>
    obtain ⟨step, hstep⟩ : ∃ step, definition.steps[k]? = some step :=
      ⟨_, List.getElem?_eq_getElem (by omega)⟩
    have hdone' : ∀ j < k, statusAt s j = some .completed := fun j hj => hdone j (by omega)
    have hk' := hdone k (by omega)
    cases hcomp : step.compensation with
    | none =>
      rw [compensate_skips hstep hcomp hk', compensationPlan_succ_none hstep hcomp]
      exact ih (by omega) hdone' hacc hsound
    | some compensation =>
      rw [compensationPlan_succ_some hstep hcomp]
      cases hr : (compensation s.saga.context).2 with
      | some exc =>
        obtain ⟨saga, hsaga, htrace⟩ := trace_giveUp env k hr
        rw [execute_raises hr, compensate_raises hstep hcomp hk' hr, htrace, always_concat,
          always_concat]
        constructor
        · rintro ⟨⟨hall, -⟩, -⟩
          exact ⟨hall, by simpa using hall.self.missing⟩
        · rintro ⟨hall, -⟩
          have hdur := hall.self.compensation_raised k s.saga.context exc
          exact ⟨⟨hall, hdur⟩, hacc.compensation_raised.durable_save hsaga hdur⟩
      | none =>
        rw [execute_returns hr, compensate_succeeds hstep hcomp hk' hr]
        let s' := (s.await .compensation k compensation).1.setRecord k
          fun r => { r with status := .compensated }
        have htrace : s'.trace = s.trace ++ [.compensation ⟨k, s.saga.context, none⟩] :=
          trace_compensated k hr _
        have hself : statusAt s' k = some .compensated :=
          statusAt_setRecord_self _ _ hk' fun _ => rfl
        have hother : ∀ j, k ≠ j → statusAt s' j = statusAt s j := fun j hj =>
          statusAt_setRecord_of_ne _ _ hj
        have hacc' : Accounts (statusAt s') s'.trace := by
          rw [htrace]
          exact hacc.compensation hk' hself hother
        have hsound' : Sound s'.trace := by
          rw [htrace]
          exact hsound.compensation
        have hmissing : missingFrom (recorded s'.trace) s'.trace =
            missingFrom (recorded s.trace) s.trace + 1 := by
          rw [htrace]
          exact missing_compensation hacc hsound hk' s.saga.context
        have hlater : ∀ j < k, statusAt s' j = some .completed := by
          intro j hj
          rw [hother j (by omega)]
          exact hdone' j hj
        have hcontext : s'.saga.context = (compensation s.saga.context).1 := rfl
        rw [List.countP_cons_of_pos (by rfl), ih (s := s') (by omega) hlater hacc' hsound',
          hmissing, hcontext, htrace, always_concat, ← htrace]
        constructor
        · rintro ⟨⟨hall, -⟩, hle⟩
          refine ⟨hall, ?_⟩
          omega
        · rintro ⟨hall, hle⟩
          refine ⟨⟨hall, { hsound' with missing := ?_ }⟩, ?_⟩
          · rw [hmissing]
            omega
          · omega

/-- Nothing that the loop has executed is missing from the saved record. -/
theorem Reached.accounts (h : Reached env definition k s) : Accounts (statusAt s) s.trace := by
  have hcases : ∀ i, (i < k ∧ statusAt s i = some .completed) ∨
      (k ≤ i ∧ (statusAt s i = some .pending ∨ statusAt s i = none)) := by
    intro i
    by_cases hi : i < k
    · exact Or.inl ⟨hi, h.done i hi⟩
    · refine Or.inr ⟨by omega, ?_⟩
      by_cases hlen : i < definition.steps.length
      · exact Or.inl (h.pending i (by omega) hlen)
      · refine Or.inr ?_
        have hnone : s.saga.steps[i]? = none := List.getElem?_eq_none_iff.mpr (by
          rw [h.records]
          omega)
        simp [statusAt, hnone]
  constructor
  · intro i
    rw [h.completed]
    rcases hcases i with ⟨hi, hst⟩ | ⟨hi, hst | hst⟩
    · simp [hi, hst, ActionRecorded]
    · simp [hst, ActionRecorded]
      omega
    · simp [hst, ActionRecorded]
      omega
  · intro i
    have hno := h.uncompensated i
    rcases hcases i with ⟨hi, hst⟩ | ⟨hi, hst | hst⟩ <;> simp [hst, hno]

theorem Reached.accounts_advance (h : Reached env definition k s)
    (hk : k < definition.steps.length) :
    Accounts (statusAt (advance env k step s))
      (s.trace ++ [.action ⟨k, s.saga.context, none⟩]) := by
  have hself : statusAt (advance env k step s) k = some .completed :=
    statusAt_advance_self (h.pending k (le_refl k) hk)
  constructor
  · intro i
    rw [completed_action, h.accounts.actions]
    by_cases hki : k = i
    · subst hki
      simp [hself, ActionRecorded]
    · simp [statusAt_advance_of_ne hki, hki]
  · intro i
    rw [compensated_action, h.accounts.compensations]
    by_cases hki : k = i
    · subst hki
      simp [hself, h.pending k (le_refl k) hk]
    · rw [statusAt_advance_of_ne hki]

theorem Reached.accounts_markFailed (h : Reached env definition k s) (exc : E) (step : SagaStep C E)
    (hk : k < definition.steps.length) :
    Accounts (statusAt (markFailed env k exc (s.await .action k step.action).1))
      (s.trace ++ [.action ⟨k, s.saga.context, some exc⟩]) := by
  have hpending := h.pending k (le_refl k) hk
  have hself : statusAt (markFailed env k exc (s.await .action k step.action).1) k =
      some .failed := statusAt_markFailed_self hpending
  have hother : ∀ i, k ≠ i →
      statusAt (markFailed env k exc (s.await .action k step.action).1) i = statusAt s i :=
    fun i hki => statusAt_markFailed_of_ne hki
  constructor
  · intro i
    rw [completed_action, h.accounts.actions]
    by_cases hki : k = i
    · subst hki
      simp [hself, hpending, ActionRecorded]
    · simp [hother i hki]
  · intro i
    rw [compensated_action, h.accounts.compensations]
    by_cases hki : k = i
    · subst hki
      simp [hself, hpending]
    · rw [hother i hki]

/-- Between an action and the save after it, at most this action is missing. -/
theorem Reached.durable_action (h : Reached env definition k s) (hk : k < definition.steps.length)
    (hrec : recorded s.trace = statusAt s) (outcome : Option E) :
    Durable (s.trace ++ [.action ⟨k, s.saga.context, outcome⟩]) := by
  have hdur := h.accounts.durable hrec
  have hunrecorded : ¬ ActionRecorded (recorded s.trace k) := by
    rw [hrec, h.pending k (le_refl k) hk]
    simp [ActionRecorded]
  have hmissing : missingFrom (recorded s.trace) s.trace = 0 := by
    rw [hrec]
    exact h.accounts.missing
  exact {
    actions := by
      intro i hi
      rw [recorded_action] at hi
      exact completed_action.mpr (Or.inl (hdur.actions i hi))
    compensations := by
      intro i hi
      rw [recorded_action] at hi
      exact compensated_action.mpr (hdur.compensations i hi)
    missing := by
      rw [recorded_action]
      cases outcome with
      | none => rw [missingFrom_action hunrecorded, hmissing]
      | some exc =>
        rw [missingFrom_action_raised]
        exact hdur.missing }

theorem atMostOneUnsaved_of_raises {acts comps : List (Executed C E)} {m : ℕ}
    (hm : m ≤ k + acts.length) (hraise : env.save m = some saveExc) :
    AtMostOneUnsaved env k acts comps := by
  intro _ hok
  simp [hok m hm] at hraise

theorem Reached.always_advance (h : Reached env definition k s) (hk : k < definition.steps.length)
    (hr : (step.action s.saga.context).2 = none) (hall : Always Durable s.trace)
    (hrec : recorded s.trace = statusAt s) : Always Durable (advance env k step s).trace := by
  obtain ⟨saga, hsaga, htrace⟩ := trace_advance env k hr
  have hdur := h.durable_action hk hrec none
  rw [htrace, always_concat, always_concat]
  exact ⟨⟨hall, hdur⟩, (h.accounts_advance hk).durable_save hsaga hdur⟩

theorem Reached.always_markFailed (h : Reached env definition k s)
    (hk : k < definition.steps.length) (hr : (step.action s.saga.context).2 = some exc)
    (hall : Always Durable s.trace) (hrec : recorded s.trace = statusAt s) :
    Always Durable (markFailed env k exc (s.await .action k step.action).1).trace := by
  obtain ⟨saga, hsaga, htrace⟩ := trace_markFailed env k hr
  have hdur := h.durable_action hk hrec (some exc)
  rw [htrace, always_concat, always_concat]
  exact ⟨⟨hall, hdur⟩, (h.accounts_markFailed exc step hk).durable_save hsaga hdur⟩

/-- After the record of a failed action is saved, the crash points are those of
`_compensate`. -/
theorem forward_compensates_durable (h : Reached env definition k s)
    (hk : k < definition.steps.length) (hr : (step.action s.saga.context).2 = some exc)
    (hsave : env.save (k + 1) = none) (hall : Always Durable s.trace)
    (hrec : recorded s.trace = statusAt s) :
    Always Durable (forward env config definition (step :: rest) k s).1.trace ↔
      AtMostOneUnsaved env k [⟨k, s.saga.context, some exc⟩]
        (execute (compensationPlan definition k) (step.action s.saga.context).1).1 := by
  let s' := markFailed env k exc (s.await .action k step.action).1
  have hall' : Always Durable s'.trace := h.always_markFailed hk hr hall hrec
  have hmarked := h.accounts_markFailed exc step hk
  obtain ⟨saga, hsaga, htrace⟩ := trace_markFailed env k hr
  have hacc : Accounts (statusAt s') s'.trace := by
    rw [htrace]
    exact hmarked.saved saga _
  have hrec' : recorded s'.trace = statusAt s' := by
    rw [htrace, h.saves, hsave, recorded_saved, hsaga]
  have hdone : ∀ j < k, statusAt s' j = some .completed := by
    intro j hj
    rw [statusAt_markFailed_of_ne (by omega)]
    exact h.done j hj
  have hcontext : s'.saga.context = (step.action s.saga.context).1 := rfl
  rw [forward_compensates hr (by rw [h.saves, hsave])]
  rw [compensate_durable hk.le hdone hacc hall'.self.toSound, hrec', hacc.missing, hcontext,
    Nat.zero_add]
  constructor
  · intro hle _ _
    exact hle.2
  · intro hle
    refine ⟨hall', hle (failed_singleton.mpr (by simp)) ?_⟩
    intro m hm
    apply h.ok_succ hsave
    simpa using hm

/-- Every crash point of the loop leaves a durable record exactly when the compensations
that may follow are at most one. -/
theorem forward_durable (hrest : rest = definition.steps.drop k) (h : Reached env definition k s)
    (hall : Always Durable s.trace) (hrec : recorded s.trace = statusAt s) :
    Always Durable (forward env config definition rest k s).1.trace ↔
      AtMostOneUnsaved env k (execute (actionPlan rest k) s.saga.context).1
        (execute (compensationPlan definition
          (k + (execute (actionPlan rest k) s.saga.context).1.length - 1))
          (execute (actionPlan rest k) s.saga.context).2).1 := by
  induction rest generalizing k s with
  | nil =>
    have htrace : (forward env config definition [] k s).1.trace =
        s.trace ++ [.saved ((s.setStatus .completed).touch env).saga (env.save s.saves)] := rfl
    have hsaga : statusAt s = fun i =>
        (((s.setStatus .completed).touch env).saga.steps[i]?).map SagaStepRecord.status := rfl
    rw [htrace, always_concat]
    constructor
    · intro _ hf
      exact absurd hf not_failed_nil
    · intro _
      exact ⟨hall, h.accounts.durable_save hsaga hall.self⟩
  | cons step rest ih =>
    have hstep : definition.steps[k]? = some step := by
      have := congrArg (·[0]?) hrest
      simpa using this.symm
    obtain ⟨hk, _⟩ := List.getElem?_eq_some_iff.mp hstep
    rw [actionPlan_cons]
    cases hr : (step.action s.saga.context).2 with
    | none =>
      have hall' := h.always_advance hk hr hall hrec
      rw [execute_returns hr]
      cases hsave : env.save (k + 1) with
      | some e =>
        rw [forward_save_raises hr (by rw [h.saves, hsave])]
        constructor
        · intro _
          apply atMostOneUnsaved_of_raises (m := k + 1) _ hsave
          simp only [List.length_cons]
          omega
        · intro _
          exact hall'
      | none =>
        have hrec' : recorded (advance env k step s).trace = statusAt (advance env k step s) := by
          obtain ⟨saga, hsaga, htrace⟩ := trace_advance env k hr
          rw [htrace, h.saves, hsave, recorded_saved, hsaga]
        have hcontext : (advance env k step s).saga.context = (step.action s.saga.context).1 := rfl
        let acts := (execute (actionPlan rest (k + 1)) (step.action s.saga.context).1).1
        have hlength : k + (⟨k, s.saga.context, none⟩ :: acts).length = k + 1 + acts.length := by
          rw [List.length_cons]
          omega
        rw [forward_goes_on hr (by rw [h.saves, hsave]),
          ih (by simpa using congrArg List.tail hrest) (h.succ hk hr hsave) hall' hrec', hcontext,
          AtMostOneUnsaved, AtMostOneUnsaved, hlength, failed_cons_of_none rfl]
    | some exc =>
      rw [execute_raises hr]
      cases hsave : env.save (k + 1) with
      | some e =>
        rw [forward_mark_raises hr (by rw [h.saves, hsave])]
        constructor
        · intro _
          exact atMostOneUnsaved_of_raises (m := k + 1) (by simp) hsave
        · intro _
          exact h.always_markFailed hk hr hall hrec
      | none =>
        simp only [List.length_singleton, Nat.add_sub_cancel]
        exact forward_compensates_durable h hk hr hsave hall hrec

/-- Every crash of a run leaves a durable record exactly when at most one compensation
succeeds between two saves. -/
theorem always_durable_iff [EmptyCollection C] (env : Environment E) (config : SagaConfig)
    (definition : SagaDefinition C E) (context : Option C) (sagaId : Option String) :
    Always Durable (run env config definition context sagaId).1.trace ↔
      AtMostOneUnsaved env 0 (plannedActions definition (context.getD ∅))
        (plannedCompensations definition (context.getD ∅)) := by
  have hempty : Durable ([] : List (Event C E)) := {
    actions := by simp [recorded, lastSaved, ActionRecorded]
    compensations := by simp [recorded, lastSaved]
    missing := by simp [missingFrom] }
  have hnil : Always Durable ([] : List (Event C E)) := by
    intro p hp
    rw [List.prefix_nil.mp hp]
    exact hempty
  have hacc : Accounts (statusAt (create env definition context sagaId))
      ([] : List (Event C E)) := by
    have hstatus : ∀ i, statusAt (create env definition context sagaId) i = some .pending ∨
        statusAt (create env definition context sagaId) i = none := by
      intro i
      cases hi : definition.steps[i]? <;> simp [statusAt, create, hi]
    constructor
    · intro i
      rcases hstatus i with hi | hi <;> simp [hi, Completed, ActionRecorded]
    · intro i
      rcases hstatus i with hi | hi <;> simp [hi, Compensated]
  have hall : Always Durable ((create env definition context sagaId).save env).1.trace := by
    have htrace : ((create env definition context sagaId).save env).1.trace =
        [] ++ [.saved (create env definition context sagaId).saga (env.save 0)] := rfl
    rw [htrace, always_concat]
    exact ⟨hnil, hacc.durable_save rfl hempty⟩
  cases hsave : env.save 0 with
  | some e =>
    rw [run_save_raises hsave]
    constructor
    · intro _
      exact atMostOneUnsaved_of_raises (Nat.zero_le _) hsave
    · intro _
      exact hall
  | none =>
    have hrec : recorded ((create env definition context sagaId).save env).1.trace =
        statusAt ((create env definition context sagaId).save env).1 := by
      have htrace : ((create env definition context sagaId).save env).1.trace =
          [] ++ [.saved (create env definition context sagaId).saga (env.save 0)] := rfl
      rw [htrace, hsave, recorded_saved]
      rfl
    rw [run_eq_forward hsave, forward_durable (by simp) (reached_create hsave) hall hrec,
      Nat.zero_add]
    rfl

/-- Two steps with compensations before one that raises. -/
def failingOrder : SagaDefinition (List String) String where
  name := "order"
  steps := [
    { name := "reserve", action := fun c => (c ++ ["reserve"], none),
      compensation := some fun c => (c ++ ["release"], none) },
    { name := "charge", action := fun c => (c ++ ["charge"], none),
      compensation := some fun c => (c ++ ["refund"], none) },
    { name := "ship", action := fun c => (c, some "RuntimeError('boom')") }]
  nonempty := by simp

/-- A crash between the last compensation and the save: both compensations are missing. -/
theorem crash_loses_two_compensations :
    ¬ ∀ (env : Environment String) (config : SagaConfig)
      (definition : SagaDefinition (List String) String) (context : Option (List String))
      (sagaId : Option String),
      Always Durable (run env config definition context sagaId).1.trace := by
  intro hclaim
  have h := (hclaim reliable {} failingOrder none none _ (List.take_prefix 9 _)).missing
  have htwo : missingFrom
      (recorded ((run reliable {} failingOrder none none).1.trace.take 9))
      ((run reliable {} failingOrder none none).1.trace.take 9) = 2 := by decide
  omega

end Taas.Saga
