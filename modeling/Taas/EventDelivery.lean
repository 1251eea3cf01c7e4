import Taas.EventProcessor

/-!
What becomes of an event whose handler always fails. The processor counts the failed
executions in the event, and the consumers compare that count with their own limit. The
retries are those of the processor's policy, which does not know the limit and takes a
returned failure for an end. An event that stays below the limit is counted as retried
and let go.
-/
namespace Taas.EventProcessor

open Retry

def Execution.returnsResult : Execution → Bool
  | .returns _ => true
  | .raises _ => false

/-- The execution fails, by an exception or by its result. -/
def Execution.Fails : Execution → Prop
  | .returns result => result.success = false
  | .raises _ => True

inductive Consumer
  | aiokafka
  | fastStream

/-- The handling of one message by a consumer; `autoCommit` is read by aiokafka only. -/
def handle (settings : MessagingSettings) (config : EventProcessorConfig) (autoCommit : Bool)
    (d : Delivery) : Consumer → Handling
  | .aiokafka => aiokafkaProcessMessage settings config autoCommit d
  | .fastStream => fastStreamMainHandler settings config d

/-- The executions that an event has left until its count reaches the limit: at least one. -/
def budget (settings : MessagingSettings) (event : BaseEvent) : ℕ :=
  (max 1 (settings.retryMaxRetries - event.retryCount)).toNat

/-- Whatever is counted as retried is executed again or dead-lettered. -/
def NotDropped : List Effect → Prop
  | [] => True
  | .retried :: rest => (.executed ∈ rest ∨ .deadLettered ∈ rest) ∧ NotDropped rest
  | _ :: rest => NotDropped rest

/-- The handler is executed as often as the budget allows, then the event is sent to the
dead letter queue once. -/
structure Delivered (settings : MessagingSettings) (event : BaseEvent) (effects : List Effect) :
    Prop where
  executions : effects.count .executed = budget settings event
  deadLettered : effects.count .deadLettered = 1
  notDropped : NotDropped effects

/-- The retries of the processor end exactly when the budget does: without retries one
failure uses it up, and with them it is at most the attempts of the policy, the executions
before its last one raise, and that one returns a failure unless it is the last attempt.
The final count is one that a dead letter may have. -/
def BudgetMet (settings : MessagingSettings) (config : EventProcessorConfig) (event : BaseEvent)
    (handler : EventHandler) : Prop :=
  0 ≤ event.retryCount + budget settings event ∧
  if config.retryEnabled then
    budget settings event ≤ maxAttempts ∧
    (∀ j, j + 1 < budget settings event →
      (handler.handleEvent j).returnsResult = false) ∧
    (budget settings event < maxAttempts →
      (handler.handleEvent (budget settings event - 1)).returnsResult = true)
  else budget settings event = 1

variable {settings : MessagingSettings} {config : EventProcessorConfig} {event : BaseEvent}
variable {handler : EventHandler} {p : Processing} {n : ℕ}

def failureEffects (config : EventProcessorConfig) : List Effect :=
  .executed :: if config.enableMetrics then [.retried] else []

/-- The event after `n` failed executions. -/
structure FailedTimes (config : EventProcessorConfig) (event : BaseEvent) (n : ℕ)
    (p : Processing) : Prop where
  executions : p.executions = n
  retryCount : p.event.retryCount = event.retryCount + n
  effects : p.effects = (List.replicate n (failureEffects config)).flatten

def attempts (config : EventProcessorConfig) (handler : EventHandler) : ℕ :=
  if config.retryEnabled then
    calls (fun j => (handler.handleEvent j).returnsResult) maxAttempts 0
  else 1

theorem FailedTimes.countFailure (h : FailedTimes config event n p) :
    FailedTimes config event (n + 1) (Processing.countFailure config
      { p with executions := p.executions + 1, effects := p.effects ++ [.executed] }) := by
  constructor
  · show p.executions + 1 = n + 1
    rw [h.executions]
  · show p.event.retryCount + 1 = event.retryCount + (n + 1 : ℕ)
    rw [h.retryCount]
    omega
  · show p.effects ++ [.executed] ++ _ = _
    rw [h.effects, List.replicate_succ', List.flatten_append, List.append_assoc]
    simp [failureEffects]

theorem processEventWithHandler_fails (hfails : ∀ j, (handler.handleEvent j).Fails)
    (h : FailedTimes config event n p) :
    FailedTimes config event (n + 1) (processEventWithHandler config handler p).2 ∧
      (processEventWithHandler config handler p).1.isOk =
        (handler.handleEvent n).returnsResult ∧
      ∀ result, (processEventWithHandler config handler p).1 = .ok result →
        result.success = false := by
  have hfail := hfails n
  have hnext := h.countFailure
  have hcall := h.executions
  unfold processEventWithHandler
  cases hexec : handler.handleEvent n with
  | returns result =>
    have hsuccess : result.success = false := by simpa [hexec, Execution.Fails] using hfail
    simp only [hcall, hexec, hsuccess, Bool.false_eq_true, if_false] at hnext ⊢
    refine ⟨hnext, rfl, ?_⟩
    rintro result' ⟨⟩
    rfl
  | raises error =>
    simp only [hcall, hexec] at hnext ⊢
    exact ⟨hnext, rfl, fun result' hr => by cases hr⟩

theorem processEvent_fails (config : EventProcessorConfig) (event : BaseEvent)
    (hfails : ∀ j, (handler.handleEvent j).Fails) :
    (processEvent config (some handler) event).1.success = false ∧
      FailedTimes config event (attempts config handler)
        (processEvent config (some handler) event).2 := by
  have hstart : FailedTimes config event 0 { event := event } :=
    ⟨rfl, by simp, rfl⟩
  -- the policy repeats the execution, or there is only one
  obtain ⟨outcome, hdef, hresult, hp⟩ : ∃ outcome : Except String ProcessingResult × Processing,
      outcome = (if config.retryEnabled then
        executeAsync (processEventWithHandler config handler) maxAttempts { event := event }
      else processEventWithHandler config handler { event := event }) ∧
      (∀ result, outcome.1 = .ok result → result.success = false) ∧
      FailedTimes config event (attempts config handler) outcome.2 := by
    refine ⟨_, rfl, ?_, ?_⟩
    · split
      · exact executeAsync_outcome (I := FailedTimes config event)
          (Q := fun outcome => ∀ result, outcome = .ok result → result.success = false)
          (fun n p hn => ⟨(processEventWithHandler_fails hfails hn).1,
            (processEventWithHandler_fails hfails hn).2.2⟩) 2 0 _ hstart
      · exact (processEventWithHandler_fails hfails hstart).2.2
    · unfold attempts
      split
      · have hcalls := executeAsync_calls (I := FailedTimes config event)
          (fun n p hn => ⟨(processEventWithHandler_fails hfails hn).1,
            (processEventWithHandler_fails hfails hn).2.1⟩) maxAttempts 0 _ hstart
        rwa [Nat.zero_add] at hcalls
      · exact (processEventWithHandler_fails hfails hstart).1
  simp only [processEvent, ← hdef]
  obtain ⟨result, p⟩ := outcome
  cases result with
  | ok result => exact ⟨hresult result rfl, hp⟩
  | error e => exact ⟨rfl, hp⟩

def afterFailures (settings : MessagingSettings) (count : ℤ) (commit : List Effect) :
    List Effect :=
  if settings.retryMaxRetries ≤ count then
    if count < 0 then [.failed] else .failed :: .deadLettered :: commit
  else [.failed, .retried]

theorem handle_fails (config : EventProcessorConfig) (event : BaseEvent)
    (hdlq : settings.dlqEnabled = true) (hfails : ∀ j, (handler.handleEvent j).Fails)
    (autoCommit : Bool) (c : Consumer) :
    ∃ commit, (commit = [] ∨ commit = [Effect.committed]) ∧
      (handle settings config autoCommit
        { value := some (.ok event), lookup := .ok (some handler) } c).effects =
      (List.replicate (attempts config handler) (failureEffects config)).flatten ++
        afterFailures settings (event.retryCount + attempts config handler) commit := by
  obtain ⟨hresult, hp⟩ := processEvent_fails config event hfails
  cases c with
  | aiokafka =>
    refine ⟨maybeCommit autoCommit, ?_, ?_⟩
    · cases autoCommit <;> simp [maybeCommit]
    · simp only [handle, aiokafkaProcessMessage, hresult, hdlq, hp.retryCount, hp.effects,
        Bool.false_eq_true, if_false, true_and, if_true, sendToDlq, afterFailures]
      split
      · by_cases hneg : event.retryCount + attempts config handler < 0
        · simp only [hneg, if_true]
        · simp only [hneg, if_false]
      · rfl
  | fastStream =>
    refine ⟨[], Or.inl rfl, ?_⟩
    simp only [handle, fastStreamMainHandler, fastStreamProcessMessage, hresult, hdlq,
      hp.retryCount, hp.effects, Bool.false_eq_true, if_false, if_true, sendToDlq, afterFailures]
    split
    · by_cases hneg : event.retryCount + attempts config handler < 0
      · simp only [hneg, if_true]
      · simp only [hneg, if_false]
    · rfl

theorem notDropped_append {l r : List Effect} (hr : NotDropped r) (hdlq : .deadLettered ∈ r) :
    NotDropped (l ++ r) := by
  induction l with
  | nil => exact hr
  | cons effect l ih =>
    cases effect
    case retried => exact ⟨Or.inr (List.mem_append_right l hdlq), ih⟩
    all_goals exact ih

theorem count_executed_replicate (config : EventProcessorConfig) (n : ℕ) :
    (List.replicate n (failureEffects config)).flatten.count .executed = n := by
  induction n with
  | zero => rfl
  | succ n ih =>
    rw [List.replicate_succ, List.flatten_cons, List.count_append, ih]
    unfold failureEffects
    cases config.enableMetrics <;> simp <;> omega

theorem count_deadLettered_replicate (config : EventProcessorConfig) (n : ℕ) :
    (List.replicate n (failureEffects config)).flatten.count .deadLettered = 0 := by
  rw [List.count_eq_zero]
  intro hmem
  obtain ⟨l, hl, hmem⟩ := List.mem_flatten.mp hmem
  rw [(List.mem_replicate.mp hl).2] at hmem
  unfold failureEffects at hmem
  cases hmetrics : config.enableMetrics <;> simp [hmetrics] at hmem

theorem delivered_iff {commit : List Effect} (hcommit : commit = [] ∨ commit = [.committed]) :
    Delivered settings event ((List.replicate n (failureEffects config)).flatten ++
        afterFailures settings (event.retryCount + n) commit) ↔
      n = budget settings event ∧ 0 ≤ event.retryCount + n := by
  have hbudget : (budget settings event : ℤ) =
      max 1 (settings.retryMaxRetries - event.retryCount) := by
    unfold budget
    omega
  have hexecuted : (afterFailures settings (event.retryCount + n) commit).count .executed = 0 := by
    unfold afterFailures
    rcases hcommit with rfl | rfl <;> split_ifs <;> rfl
  constructor
  · rintro ⟨hexecutions, hdlq, -⟩
    rw [List.count_append, count_executed_replicate, hexecuted] at hexecutions
    rw [List.count_append, count_deadLettered_replicate] at hdlq
    refine ⟨hexecutions, ?_⟩
    by_contra hneg
    unfold afterFailures at hdlq
    split_ifs at hdlq <;> simp at hdlq
    omega
  · rintro ⟨hn, hcount⟩
    have hlimit : settings.retryMaxRetries ≤ event.retryCount + n := by omega
    have hafter : afterFailures settings (event.retryCount + n) commit =
        .failed :: .deadLettered :: commit := by
      unfold afterFailures
      rw [if_pos hlimit, if_neg (by omega)]
    constructor
    · rw [List.count_append, count_executed_replicate, hexecuted, hn]
      rfl
    · rw [List.count_append, count_deadLettered_replicate, hafter]
      rcases hcommit with rfl | rfl <;> rfl
    · rw [hafter]
      apply notDropped_append
      · rcases hcommit with rfl | rfl <;> trivial
      · simp

/-- An event whose handler always fails is executed as often as its budget allows and then
dead-lettered once exactly when the retries of the processor end with the budget. -/
theorem failing_event_delivered_iff (settings : MessagingSettings) (config : EventProcessorConfig)
    (autoCommit : Bool) (event : BaseEvent) (handler : EventHandler) (c : Consumer)
    (hdlq : settings.dlqEnabled = true) (hfails : ∀ j, (handler.handleEvent j).Fails) :
    Delivered settings event (handle settings config autoCommit
        { value := some (.ok event), lookup := .ok (some handler) } c).effects ↔
      BudgetMet settings config event handler := by
  obtain ⟨commit, hcommit, heffects⟩ := handle_fails config event hdlq hfails autoCommit c
  rw [heffects, delivered_iff hcommit]
  have hpos : 0 < budget settings event := by
    unfold budget
    omega
  have hattempts : attempts config handler = budget settings event ↔
      if config.retryEnabled then
        budget settings event ≤ maxAttempts ∧
        (∀ j, j + 1 < budget settings event →
          (handler.handleEvent j).returnsResult = false) ∧
        (budget settings event < maxAttempts →
          (handler.handleEvent (budget settings event - 1)).returnsResult = true)
      else budget settings event = 1 := by
    unfold attempts
    split
    · rw [calls_eq_iff maxAttempts 0 _ hpos]
      simp only [Nat.zero_add]
    · exact eq_comm
  unfold BudgetMet
  rw [← hattempts]
  constructor
  · rintro ⟨heq, hcount⟩
    rw [heq] at hcount
    exact ⟨hcount, heq⟩
  · rintro ⟨hcount, heq⟩
    rw [heq]
    exact ⟨rfl, hcount⟩

def raising : EventHandler where
  handlerName := "DepositHandler"
  handleEvent := fun _ => .raises "boom"

def deposit : BaseEvent where
  eventType := "deposit"
  eventId := "evt_abc123"

/-- With retries enabled the three attempts of the policy are the default limit. -/
theorem failing_event_delivered_three : Delivered {} deposit (handle {} { retryEnabled := true }
    false { value := some (.ok deposit), lookup := .ok (some raising) } .aiokafka).effects := by
  rw [failing_event_delivered_iff {} { retryEnabled := true } false deposit raising .aiokafka rfl
    fun _ => trivial]
  unfold BudgetMet
  refine ⟨by decide, ?_⟩
  rw [if_pos rfl]
  exact ⟨by decide, fun _ _ => rfl, fun h => absurd h (by decide)⟩

/-- With the default configurations the event is executed once, counted as retried and
dropped. -/
theorem failing_event_is_dropped :
    ¬ ∀ (settings : MessagingSettings) (config : EventProcessorConfig) (autoCommit : Bool)
      (event : BaseEvent) (handler : EventHandler) (c : Consumer), settings.dlqEnabled = true →
      (∀ j, (handler.handleEvent j).Fails) →
      Delivered settings event (handle settings config autoCommit
        { value := some (.ok event), lookup := .ok (some handler) } c).effects := by
  intro hclaim
  have h := (hclaim {} {} false deposit raising .aiokafka rfl fun _ => trivial).deadLettered
  exact absurd h (by decide)

end Taas.EventProcessor
