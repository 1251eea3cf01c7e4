import Taas.SagaPlan

/-!
Whether a saga that ends with an error has compensated what it completed. The handler of
a failing action compensates; a `save` that raises leaves the two loops at once, with no
handler. So a raising save breaks consistency when it comes between the completion of a
step and its compensation, and also when it hides that a compensation failed.
-/
namespace Taas.Saga

variable {C E : Type}

/-- Every completed step that has a compensation was compensated. -/
def Consistent (definition : SagaDefinition C E) (trace : List (Event C E)) : Prop :=
  ∀ i, Completed trace i → HasCompensation definition i → Compensated trace i

/-- A result with an exception other than `SagaCompensationError` has a consistent trace. -/
def ErrorsConsistent (definition : SagaDefinition C E)
    (result : Progress C E × Option (Raised E)) : Prop :=
  ∀ raised, result.2 = some raised →
    (∀ message cause, raised ≠ .compensation message cause) → Consistent definition result.1.trace

/-- Save number `f` raises and no save before it does. -/
def FirstToRaise (env : Environment E) (f : ℕ) : Prop :=
  env.save f ≠ none ∧ ∀ m < f, env.save m = none

/-- No save raises too early or too late: the first that raises comes while no step with
a compensation is completed, or it is the last save of a compensation that succeeds. The
steps before `k` are completed, `acts` and `comps` are the executions that follow. -/
def RaisesHarmlessly (env : Environment E) (definition : SagaDefinition C E) (k : ℕ)
    (acts comps : List (Executed C E)) : Prop :=
  ∀ f, FirstToRaise env f → f ≤ k + acts.length + 1 →
    if Failed acts ∧ f = k + acts.length + 1 then ¬ Failed comps
    else ∀ i < f, i < k ∨ Succeeds acts i → ¬ HasCompensation definition i

/-- The executions of the actions on the context `c` when no save raises. -/
def plannedActions (definition : SagaDefinition C E) (c : C) : List (Executed C E) :=
  (execute (actionPlan definition.steps 0) c).1

/-- The executions of the compensations that the last of these actions leads to if it fails. -/
def plannedCompensations (definition : SagaDefinition C E) (c : C) : List (Executed C E) :=
  (execute (compensationPlan definition ((plannedActions definition c).length - 1))
    (execute (actionPlan definition.steps 0) c).2).1

variable {env : Environment E} {config : SagaConfig} {definition : SagaDefinition C E}
variable {s : Progress C E} {i k f : ℕ} {step : SagaStep C E} {rest : List (SagaStep C E)}
variable {trace : List (Event C E)} {exc saveExc : E} {acts comps : List (Executed C E)}

theorem FirstToRaise.lt (hf : FirstToRaise env f) (hok : ∀ m ≤ k, env.save m = none) : k < f := by
  by_contra hle
  apply hf.1
  apply hok
  omega

theorem FirstToRaise.eq_succ (hf : FirstToRaise env f) (hok : ∀ m ≤ k, env.save m = none)
    (hraise : env.save (k + 1) ≠ none) : f = k + 1 := by
  have hgt := hf.lt hok
  have hle : f ≤ k + 1 := by
    by_contra hlt
    apply hraise
    apply hf.2
    omega
  omega

theorem firstToRaise_succ (hok : ∀ m ≤ k, env.save m = none) (hraise : env.save (k + 1) ≠ none) :
    FirstToRaise env (k + 1) :=
  ⟨hraise, fun m hm => hok m (by omega)⟩

/-- With nothing compensated, consistency means that nothing completed has a compensation. -/
theorem consistent_iff_no_compensation {P : ℕ → Prop} (hcompleted : ∀ i, Completed trace i ↔ P i)
    (hnone : ∀ i, ¬ Compensated trace i) :
    Consistent definition trace ↔ ∀ i, P i → ¬ HasCompensation definition i := by
  constructor
  · intro hc i hi hhas
    exact hnone i (hc i ((hcompleted i).mpr hi) hhas)
  · intro hc i hi hhas
    exact absurd hhas (hc i ((hcompleted i).mp hi))

theorem errorsConsistent_save {s' : Progress C E} :
    ErrorsConsistent definition (s', some (.save saveExc)) ↔ Consistent definition s'.trace := by
  constructor
  · intro h
    exact h _ rfl (by simp)
  · rintro h raised - -
    exact h

/-- What `_compensate` leaves for the steps before `k`, whether or not its save raises. -/
structure CompensateOutcome (env : Environment E) (definition : SagaDefinition C E) (k : ℕ)
    (s : Progress C E) (comps : List (Executed C E)) (result : Progress C E × Option (Raised E)) :
    Prop where
  completed : ∀ i, Completed result.1.trace i ↔ Completed s.trace i
  grows : ∀ i, Compensated s.trace i → Compensated result.1.trace i
  all : ¬ Failed comps → ∀ i < k, HasCompensation definition i → Compensated result.1.trace i
  missed : Failed comps →
    ∃ i < k, HasCompensation definition i ∧ ¬ Compensated result.1.trace i
  raisesSave : ∀ exc, env.save s.saves = some exc → result.2 = some (.save exc)
  raises : env.save s.saves = none → Failed comps →
    ∃ message cause, result.2 = some (.compensation message cause)

theorem compensateOutcome_save (env : Environment E) (definition : SagaDefinition C E)
    (s : Progress C E) :
    CompensateOutcome env definition 0 s [] (compensate env definition 0 s) where
  completed _ := completed_saved
  grows _ hi := compensated_saved.mpr hi
  all _ i hi := absurd hi (Nat.not_lt_zero i)
  missed hf := absurd hf not_failed_nil
  raisesSave exc hexc := by
    show (env.save s.saves).map Raised.save = _
    rw [hexc]
    rfl
  raises _ hf := absurd hf not_failed_nil

theorem CompensateOutcome.skip {result : Progress C E × Option (Raised E)}
    (h : CompensateOutcome env definition k s comps result)
    (hnot : ¬ HasCompensation definition k) :
    CompensateOutcome env definition (k + 1) s comps result :=
  { h with
    all := by
      intro hf i hi hhas
      have hne : i ≠ k := by
        rintro rfl
        exact hnot hhas
      exact h.all hf i (by omega) hhas
    missed := by
      intro hf
      obtain ⟨i, hi, hmiss⟩ := h.missed hf
      exact ⟨i, by omega, hmiss⟩ }

/-- A compensation that raises ends the loop, and its step is not compensated. -/
theorem compensateOutcome_giveUp {compensation : SagaAction C E} (name : String)
    (hhas : HasCompensation definition k) (hr : (compensation s.saga.context).2 = some exc)
    (hnone : ¬ Compensated s.trace k) :
    CompensateOutcome env definition (k + 1) s [⟨k, s.saga.context, some exc⟩]
      ((giveUp env k exc (s.await .compensation k compensation).1).save env |>.1,
        some (match env.save s.saves with
          | some saveExc => .save saveExc
          | none => Raised.compensationError env name exc)) := by
  have hfailed : Failed [(⟨k, s.saga.context, some exc⟩ : Executed C E)] :=
    failed_singleton.mpr (by simp)
  obtain ⟨saga, -, htrace⟩ := trace_giveUp env k hr
  have hsame : ∀ i, Compensated (s.trace ++ [.compensation ⟨k, s.saga.context, some exc⟩] ++
      [.saved saga (env.save s.saves)]) i ↔ Compensated s.trace i := by
    intro i
    rw [compensated_saved, compensated_compensation]
    simp
  exact {
    completed := fun i => by rw [htrace, completed_saved, completed_compensation]
    grows := fun i hi => by
      rw [htrace]
      exact (hsame i).mpr hi
    all := fun hf => absurd hfailed hf
    missed := fun _ => ⟨k, by omega, hhas, by
      rw [htrace, hsame]
      exact hnone⟩
    raisesSave := fun e he => by simp [he]
    raises := fun he _ => by simp [he, Raised.compensationError] }

/-- After a compensation that succeeded, the outcome is that of the steps before it. -/
theorem CompensateOutcome.compensated {s' : Progress C E} {before : C}
    {result : Progress C E × Option (Raised E)}
    (h : CompensateOutcome env definition k s' comps result)
    (htrace : s'.trace = s.trace ++ [.compensation ⟨k, before, none⟩])
    (hsaves : s'.saves = s.saves) :
    CompensateOutcome env definition (k + 1) s (⟨k, before, none⟩ :: comps) result := by
  have hself := h.grows k (by
    rw [htrace, compensated_compensation]
    exact Or.inr ⟨rfl, rfl⟩)
  exact {
    completed := fun i => (h.completed i).trans (by rw [htrace, completed_compensation])
    grows := fun i hi => h.grows i (by
      rw [htrace, compensated_compensation]
      exact Or.inl hi)
    all := by
      intro hf i hi hi'
      rw [failed_cons_of_none rfl] at hf
      by_cases hik : i = k
      · subst hik
        exact hself
      · exact h.all hf i (by omega) hi'
    missed := by
      intro hf
      rw [failed_cons_of_none rfl] at hf
      obtain ⟨i, hi, hmiss⟩ := h.missed hf
      exact ⟨i, by omega, hmiss⟩
    raisesSave := fun e he => h.raisesSave e (by rwa [hsaves])
    raises := fun he hf => h.raises (by rwa [hsaves]) ((failed_cons_of_none rfl).mp hf) }

theorem compensate_outcome (env : Environment E) (hk : k ≤ definition.steps.length)
    (hdone : ∀ j < k, statusAt s j = some .completed) (hnone : ∀ j < k, ¬ Compensated s.trace j) :
    CompensateOutcome env definition k s (execute (compensationPlan definition k) s.saga.context).1
      (compensate env definition k s) := by
  induction k generalizing s with
  | zero => exact compensateOutcome_save env definition s
  | succ k ih =>
    obtain ⟨step, hstep⟩ : ∃ step, definition.steps[k]? = some step :=
      ⟨_, List.getElem?_eq_getElem (by omega)⟩
    have hdone' : ∀ j < k, statusAt s j = some .completed := fun j hj => hdone j (by omega)
    have hk' := hdone k (by omega)
    cases hcomp : step.compensation with
    | none =>
      rw [compensate_skips hstep hcomp hk', compensationPlan_succ_none hstep hcomp]
      have h := ih (s := s) (by omega) hdone' fun j hj => hnone j (by omega)
      exact h.skip (by simp [HasCompensation, hstep, hcomp])
    | some compensation =>
      have hhas : HasCompensation definition k := by simp [HasCompensation, hstep, hcomp]
      rw [compensationPlan_succ_some hstep hcomp]
      cases hr : (compensation s.saga.context).2 with
      | some exc =>
        rw [execute_raises hr, compensate_raises hstep hcomp hk' hr]
        exact compensateOutcome_giveUp step.name hhas hr (hnone k (by omega))
      | none =>
        rw [execute_returns hr, compensate_succeeds hstep hcomp hk' hr]
        have htrace := trace_compensated k hr fun r => { r with status := .compensated }
        have h := ih (s := (s.await .compensation k compensation).1.setRecord k
            fun r => { r with status := .compensated }) (by omega)
          (fun j hj => by
            rw [statusAt_setRecord_of_ne _ _ (by omega)]
            exact hdone' j hj)
          (fun j hj => by
            rw [htrace, compensated_compensation]
            rintro (hc | ⟨hjk, _⟩)
            · exact hnone j (by omega) hc
            · simp only at hjk
              omega)
        exact h.compensated htrace (by simp)

/-- The loop has completed the steps before `k`, and no save has raised. -/
structure Reached (env : Environment E) (definition : SagaDefinition C E) (k : ℕ)
    (s : Progress C E) : Prop where
  saves : s.saves = k + 1
  ok : ∀ m ≤ k, env.save m = none
  records : s.saga.steps.length = definition.steps.length
  done : ∀ j < k, statusAt s j = some .completed
  pending : ∀ j, k ≤ j → j < definition.steps.length → statusAt s j = some .pending
  completed : ∀ i, Completed s.trace i ↔ i < k
  uncompensated : ∀ i, ¬ Compensated s.trace i

theorem completed_advance (h : Reached env definition k s)
    (hr : (step.action s.saga.context).2 = none) (i : ℕ) :
    Completed (advance env k step s).trace i ↔ i < k + 1 := by
  obtain ⟨saga, -, htrace⟩ := trace_advance env k hr
  rw [htrace, completed_saved, completed_action, h.completed]
  simp only [and_true]
  omega

theorem compensated_advance (h : Reached env definition k s)
    (hr : (step.action s.saga.context).2 = none) (i : ℕ) :
    ¬ Compensated (advance env k step s).trace i := by
  obtain ⟨saga, -, htrace⟩ := trace_advance env k hr
  rw [htrace, compensated_saved, compensated_action]
  exact h.uncompensated i

theorem completed_markFailed (h : Reached env definition k s)
    (hr : (step.action s.saga.context).2 = some exc) (i : ℕ) :
    Completed (markFailed env k exc (s.await .action k step.action).1).trace i ↔ i < k := by
  obtain ⟨saga, -, htrace⟩ := trace_markFailed env k hr
  rw [htrace, completed_saved, completed_action, h.completed]
  simp

theorem compensated_markFailed (h : Reached env definition k s)
    (hr : (step.action s.saga.context).2 = some exc) (i : ℕ) :
    ¬ Compensated (markFailed env k exc (s.await .action k step.action).1).trace i := by
  obtain ⟨saga, -, htrace⟩ := trace_markFailed env k hr
  rw [htrace, compensated_saved, compensated_action]
  exact h.uncompensated i

theorem Reached.ok_succ (h : Reached env definition k s) (hsave : env.save (k + 1) = none) :
    ∀ m ≤ k + 1, env.save m = none := by
  intro m hm
  by_cases hmk : m = k + 1
  · rw [hmk]
    exact hsave
  · apply h.ok
    omega

theorem Reached.succ (h : Reached env definition k s) (hk : k < definition.steps.length)
    (hr : (step.action s.saga.context).2 = none) (hsave : env.save (k + 1) = none) :
    Reached env definition (k + 1) (advance env k step s) where
  saves := by simp [advance, h.saves]
  ok := h.ok_succ hsave
  records := by
    show (s.saga.steps.modify k _).length = _
    rw [List.length_modify, h.records]
  done := by
    intro j hj
    by_cases hjk : k = j
    · subst hjk
      exact statusAt_advance_self (h.pending k (le_refl k) hk)
    · rw [statusAt_advance_of_ne hjk]
      exact h.done j (by omega)
  pending := by
    intro j hkj hj
    rw [statusAt_advance_of_ne (by omega)]
    exact h.pending j (by omega) hj
  completed := completed_advance h hr
  uncompensated := compensated_advance h hr

/-- A save of the loop that raises is harmless when no step completed by then has a
compensation. -/
theorem raisesHarmlessly_now (hok : ∀ m ≤ k, env.save m = none) (hraise : env.save (k + 1) ≠ none)
    (hlast : ¬ (Failed acts ∧ acts = [])) :
    RaisesHarmlessly env definition k acts comps ↔
      ∀ i < k + 1, i < k ∨ Succeeds acts i → ¬ HasCompensation definition i := by
  have hnot : ¬ (Failed acts ∧ k + 1 = k + acts.length + 1) := by
    rintro ⟨hf, hlen⟩
    exact hlast ⟨hf, List.length_eq_zero_iff.mp (by omega)⟩
  constructor
  · intro h
    have h' := h (k + 1) (firstToRaise_succ hok hraise) (by omega)
    rwa [if_neg hnot] at h'
  · intro h f hf _
    obtain rfl := hf.eq_succ hok hraise
    rwa [if_neg hnot]

theorem raisesHarmlessly_cons {before : C} :
    RaisesHarmlessly env definition k (⟨k, before, none⟩ :: acts) comps ↔
      RaisesHarmlessly env definition (k + 1) acts comps := by
  have hlen : k + (⟨k, before, none⟩ :: acts).length + 1 = k + 1 + acts.length + 1 := by
    simp only [List.length_cons]
    omega
  have hdone : ∀ i, (i < k ∨ Succeeds (⟨k, before, none⟩ :: acts) i) ↔
      (i < k + 1 ∨ Succeeds acts i) := by
    intro i
    have hle : (i < k ∨ k = i) ↔ i < k + 1 := by omega
    rw [succeeds_cons, ← or_assoc, and_iff_left rfl, hle]
  unfold RaisesHarmlessly
  rw [hlen]
  simp only [failed_cons_of_none, hdone]

/-- The last save of the loop is harmful when it raises and a step has a compensation. -/
theorem forward_nil_errors (h : Reached env definition k s) :
    ErrorsConsistent definition (forward env config definition [] k s) ↔
      RaisesHarmlessly env definition k [] comps := by
  have hforward : forward env config definition [] k s =
      ((((s.setStatus .completed).touch env).save env).1,
        (env.save s.saves).map Raised.save) := rfl
  rw [hforward, h.saves]
  cases hsave : env.save (k + 1) with
  | none =>
    constructor
    · intro _ f hf hle
      have hlater := hf.lt (h.ok_succ hsave)
      simp only [List.length_nil] at hle
      omega
    · intro _ raised hraised
      cases hraised
  | some e =>
    show ErrorsConsistent definition (_, some (.save e)) ↔ _
    have hlast : ¬ (Failed ([] : List (Executed C E)) ∧ ([] : List (Executed C E)) = []) := by
      rintro ⟨hf, -⟩
      exact not_failed_nil hf
    have hcompleted : ∀ i, Completed (((s.setStatus .completed).touch env).save env).1.trace i ↔
        i < k := fun i => completed_saved.trans (h.completed i)
    have hnone : ∀ i, ¬ Compensated (((s.setStatus .completed).touch env).save env).1.trace i :=
      fun i hc => h.uncompensated i (compensated_saved.mp hc)
    rw [errorsConsistent_save, raisesHarmlessly_now h.ok (by simp [hsave]) hlast,
      consistent_iff_no_compensation hcompleted hnone]
    constructor
    · intro hno i _ hi
      rcases hi with hi | ⟨x, hx, -⟩
      · exact hno i hi
      · simp at hx
    · intro hno i hi
      exact hno i (by omega) (Or.inl hi)

/-- After the record of a failed action is saved, only the save of `_compensate` can raise,
and it is harmful when a compensation raised before it. -/
theorem forward_compensates_errors (h : Reached env definition k s)
    (hk : k < definition.steps.length) (hr : (step.action s.saga.context).2 = some exc)
    (hsave : env.save (k + 1) = none) :
    ErrorsConsistent definition (forward env config definition (step :: rest) k s) ↔
      RaisesHarmlessly env definition k [⟨k, s.saga.context, some exc⟩]
        (execute (compensationPlan definition k) (step.action s.saga.context).1).1 := by
  rw [forward_compensates hr (by rw [h.saves, hsave])]
  have hfailed : Failed [(⟨k, s.saga.context, some exc⟩ : Executed C E)] :=
    failed_singleton.mpr (by simp)
  have hdone : ∀ j < k,
      statusAt (markFailed env k exc (s.await .action k step.action).1) j = some .completed := by
    intro j hj
    rw [statusAt_markFailed_of_ne (by omega)]
    exact h.done j hj
  have hsaves : (markFailed env k exc (s.await .action k step.action).1).saves = k + 2 := by
    simp [markFailed, h.saves]
  have hcontext : (markFailed env k exc (s.await .action k step.action).1).saga.context =
      (step.action s.saga.context).1 := rfl
  have hout := compensate_outcome env hk.le hdone fun j _ => compensated_markFailed h hr j
  rw [hcontext] at hout
  constructor
  · intro hconsistent f hf hle
    obtain rfl : f = k + 2 := by
      have hlater := hf.lt (h.ok_succ hsave)
      simp only [List.length_singleton] at hle
      omega
    rw [if_pos ⟨hfailed, by simp⟩]
    intro hcomps
    obtain ⟨e, he⟩ := Option.ne_none_iff_exists'.mp hf.1
    obtain ⟨i, hi, hhas, hmiss⟩ := hout.missed hcomps
    have hraised := hout.raisesSave e (by rw [hsaves, he])
    have hall := hconsistent (.save e) (by simp [raisedAfter, hraised]) (by simp)
    apply hmiss
    apply hall i _ hhas
    rw [hout.completed, completed_markFailed h hr]
    exact hi
  · intro hharmless raised hraised hother i hi hhas
    rw [hout.completed, completed_markFailed h hr] at hi
    by_cases hcomps : Failed (execute (compensationPlan definition k)
        (step.action s.saga.context).1).1
    · exfalso
      cases hlast : env.save (k + 2) with
      | some e =>
        have hfirst : FirstToRaise env (k + 2) :=
          firstToRaise_succ (h.ok_succ hsave) (by simp [hlast])
        have hsucceeds := hharmless (k + 2) hfirst (by simp)
        rw [if_pos ⟨hfailed, by simp⟩] at hsucceeds
        exact hsucceeds hcomps
      | none =>
        obtain ⟨message, cause, hout'⟩ := hout.raises (by rw [hsaves, hlast]) hcomps
        simp only [raisedAfter, hout', Option.orElse_eq_orElse, Option.orElse_some,
          Option.some.injEq] at hraised
        exact hother message cause hraised.symm
    · exact hout.all hcomps i hi hhas

/-- Every ending of the loop is consistent exactly when its raising save is harmless. -/
theorem forward_errors (hrest : rest = definition.steps.drop k) (h : Reached env definition k s) :
    ErrorsConsistent definition (forward env config definition rest k s) ↔
      RaisesHarmlessly env definition k (execute (actionPlan rest k) s.saga.context).1
        (execute (compensationPlan definition
          (k + (execute (actionPlan rest k) s.saga.context).1.length - 1))
          (execute (actionPlan rest k) s.saga.context).2).1 := by
  induction rest generalizing k s with
  | nil => exact forward_nil_errors h
  | cons step rest ih =>
    have hstep : definition.steps[k]? = some step := by
      have := congrArg (·[0]?) hrest
      simpa using this.symm
    obtain ⟨hk, _⟩ := List.getElem?_eq_some_iff.mp hstep
    rw [actionPlan_cons]
    cases hr : (step.action s.saga.context).2 with
    | none =>
      rw [execute_returns hr]
      cases hsave : env.save (k + 1) with
      | some e =>
        rw [forward_save_raises hr (by rw [h.saves, hsave]), errorsConsistent_save,
          raisesHarmlessly_now h.ok (by simp [hsave]) (by simp),
          consistent_iff_no_compensation (completed_advance h hr) (compensated_advance h hr)]
        constructor
        · intro hnone i hi _
          exact hnone i hi
        · intro hnone i hi
          apply hnone i hi
          by_cases hik : i < k
          · exact Or.inl hik
          · refine Or.inr (succeeds_cons.mpr (Or.inl ⟨?_, rfl⟩))
            show k = i
            omega
      | none =>
        have h' := h.succ hk hr hsave
        rw [forward_goes_on hr (by rw [h.saves, hsave]), raisesHarmlessly_cons,
          ih (by simpa using congrArg List.tail hrest) h']
        have hcontext : (advance env k step s).saga.context = (step.action s.saga.context).1 := rfl
        have hindex (n : ℕ) : k + n + 1 - 1 = k + 1 + n - 1 := by omega
        rw [hcontext, List.length_cons, ← Nat.add_assoc, hindex]
    | some exc =>
      rw [execute_raises hr]
      cases hsave : env.save (k + 1) with
      | some e =>
        rw [forward_mark_raises hr (by rw [h.saves, hsave]), errorsConsistent_save,
          raisesHarmlessly_now h.ok (by simp [hsave]) (by simp),
          consistent_iff_no_compensation (completed_markFailed h hr) (compensated_markFailed h hr)]
        constructor
        · intro hnone i _ hi
          rcases hi with hi | ⟨x, hx, -, hx'⟩
          · exact hnone i hi
          · obtain rfl := List.mem_singleton.mp hx
            simp at hx'
        · intro hnone i hi
          exact hnone i (by omega) (Or.inl hi)
      | none =>
        simp only [List.length_singleton, Nat.add_sub_cancel]
        exact forward_compensates_errors h hk hr hsave

theorem run_save_raises [EmptyCollection C] {context : Option C} {sagaId : Option String}
    (hsave : env.save 0 = some saveExc) :
    run env config definition context sagaId =
      (((create env definition context sagaId).save env).1, some (.save saveExc)) := by
  have hfirst : env.save (create env definition context sagaId).saves = some saveExc := hsave
  simp [run, Progress.save, hfirst]

theorem run_eq_forward [EmptyCollection C] {context : Option C} {sagaId : Option String}
    (hsave : env.save 0 = none) :
    run env config definition context sagaId = forward env config definition definition.steps 0
      ((create env definition context sagaId).save env).1 := by
  have hfirst : env.save (create env definition context sagaId).saves = none := hsave
  simp [run, Progress.save, hfirst]

theorem reached_create [EmptyCollection C] {context : Option C} {sagaId : Option String}
    (hsave : env.save 0 = none) :
    Reached env definition 0 ((create env definition context sagaId).save env).1 where
  saves := rfl
  ok := by
    intro m hm
    obtain rfl : m = 0 := by omega
    exact hsave
  records := List.length_map _
  done j hj := absurd hj (Nat.not_lt_zero j)
  pending j _ hj := by simp [statusAt, create, Progress.save, hj]
  completed i := by simp [Completed, create, Progress.save]
  uncompensated i := by simp [Compensated, create, Progress.save]

/-- A run that ends with an error other than a failed compensation has compensated what it
completed exactly when no save raises at a harmful moment. -/
theorem errors_consistent_iff [EmptyCollection C] (env : Environment E) (config : SagaConfig)
    (definition : SagaDefinition C E) (context : Option C) (sagaId : Option String) :
    ErrorsConsistent definition (run env config definition context sagaId) ↔
      RaisesHarmlessly env definition 0 (plannedActions definition (context.getD ∅))
        (plannedCompensations definition (context.getD ∅)) := by
  cases hsave : env.save 0 with
  | some e =>
    rw [run_save_raises hsave, errorsConsistent_save]
    constructor
    · rintro - f hf -
      have hzero : f = 0 := by
        by_contra hne
        have := hf.2 0 (by omega)
        simp [hsave] at this
      subst hzero
      rw [if_neg (by omega)]
      intro i hi
      exact absurd hi (Nat.not_lt_zero i)
    · rintro - i ⟨before, hmem⟩
      simp [Progress.save, create] at hmem
  | none =>
    rw [run_eq_forward hsave, forward_errors (by simp) (reached_create hsave), Nat.zero_add]
    rfl

/-- A step with a compensation; the save after its action raises. -/
def transfer : SagaDefinition (List String) String where
  name := "demo"
  steps := [
    { name := "s1", action := fun c => (c ++ ["s1"], none),
      compensation := some fun c => (c ++ ["s1.comp"], none) }]
  nonempty := by simp

theorem raising_save_strands_step :
    ¬ ∀ (env : Environment String) (config : SagaConfig)
      (definition : SagaDefinition (List String) String) (context : Option (List String))
      (sagaId : Option String),
      ErrorsConsistent definition (run env config definition context sagaId) := by
  intro hclaim
  let env : Environment String :=
    { reliable with save := fun n => if n = 1 then some "OperationalError()" else none }
  have h : Consistent transfer (run env {} transfer none none).1.trace :=
    hclaim env {} transfer none none (.save "OperationalError()") rfl (by simp)
  have hcompleted : Completed (run env {} transfer none none).1.trace 0 := by decide
  have hmissed : ¬ Compensated (run env {} transfer none none).1.trace 0 := by decide
  exact hmissed (h 0 hcompleted rfl)

end Taas.Saga
