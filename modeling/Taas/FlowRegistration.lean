import Mathlib.Logic.Function.Basic
import Taas.EventProcessor
import Taas.Fallible

/-!
Handler registration from event flows. The registry keeps one handler for each event type;
the flows list any number of handler classes for it. Classes are values with decidable
equality, exceptions are their texts.
-/
namespace Taas.FlowRegistration

open Retry EventProcessor Fallible

variable {E H : Type}

structure EventStep (E H : Type) where
  event : E
  handlers : List H
  emits : List E := []

/-- The flows of a domain by name, in the order of the mapping. -/
abbrev FlowMap (E H : Type) := List (String × List (EventStep E H))

/-- An instance of a handler class. -/
structure BaseEventHandler (H : Type) where
  cls : H
  handler : EventHandler

structure HandlerRegistry (H : Type) where
  handlers : String → Option (BaseEventHandler H) := fun _ => none

def HandlerRegistry.register (registry : HandlerRegistry H) (eventType : String)
    (handler : BaseEventHandler H) : HandlerRegistry H :=
  { handlers := Function.update registry.handlers eventType (some handler) }

def HandlerRegistry.getHandler (registry : HandlerRegistry H) (eventType : String) :
    Option (BaseEventHandler H) := registry.handlers eventType

/-- The event and handler classes of a domain and its `topic_for_event`. -/
structure Domain (E H : Type) where
  name : E → String
  /-- `_field_default(event_cls, 'event_type')`. -/
  fieldDefault : E → Option String
  topicForEvent : E → Except String (Option String)
  /-- `handler_cls()`. -/
  instantiate : H → Except String EventHandler

/-- What the registration calls of the messaging service. -/
structure MessagingService (E : Type) where
  isConsumerEnabled : Bool
  registerSchema : String → E → Except String Unit
  registerEventSerializer : E → Except String Unit

def eventTypeValue (domain : Domain E H) (eventCls : E) : Except String String :=
  match domain.fieldDefault eventCls with
  | some default => .ok default
  | none => .error (domain.name eventCls ++ " does not declare a default for 'event_type'; " ++
      "cannot resolve its event type without instantiating it.")

def iterFlowSteps (flows : FlowMap E H) : List (EventStep E H) := flows.flatMap Prod.snd

section

variable [DecidableEq E] [DecidableEq H]

/-- Every event class of the flows, at its first mention. -/
def iterFlowEventClasses (flows : FlowMap E H) : List E :=
  ((iterFlowSteps flows).flatMap fun step => step.event :: step.emits).eraseDups

def topicEventSchemaPairs (domain : Domain E H) (flows : FlowMap E H) :
    Except String (List (String × E)) :=
  (iterFlowEventClasses flows).mapM fun eventCls => do
    match ← domain.topicForEvent eventCls with
    | some topic => return (topic, eventCls)
    | none => throw ("Event class " ++ domain.name eventCls ++ " is not routable: " ++
        "topic_for_event returned None. All events in flows must be routable.")

def registerSchemaRegistrySchemas (domain : Domain E H) (service : MessagingService E)
    (flows : FlowMap E H) : Except String Unit := do
  (← topicEventSchemaPairs domain flows).forM fun (topic, eventCls) =>
    service.registerSchema topic eventCls

/-- The registry and the two sets of `register_handlers_from_flows`. -/
structure Registration (E H : Type) where
  registry : HandlerRegistry H
  registeredHandlers : List (String × H) := []
  registeredEvents : List E := []

def registerEvent (service : MessagingService E) (st : Registration E H) (eventCls : E) :
    Except String (Registration E H) := do
  if eventCls ∈ st.registeredEvents then
    return st
  service.registerEventSerializer eventCls
  return { st with registeredEvents := eventCls :: st.registeredEvents }

def registerHandler (domain : Domain E H) (eventType : String) (st : Registration E H)
    (handlerCls : H) : Except String (Registration E H) := do
  if (eventType, handlerCls) ∈ st.registeredHandlers then
    return st
  let handler ← domain.instantiate handlerCls
  return { st with
    registeredHandlers := (eventType, handlerCls) :: st.registeredHandlers
    registry := st.registry.register eventType ⟨handlerCls, handler⟩ }

/-- One turn of the loop over the steps. -/
def registerStep (domain : Domain E H) (service : MessagingService E) (st : Registration E H)
    (step : EventStep E H) : Except String (Registration E H) := do
  let eventType ← eventTypeValue domain step.event
  let st ← registerEvent service st step.event
  let st ← step.emits.foldlM (registerEvent service) st
  step.handlers.foldlM (registerHandler domain eventType) st

/-- `register_handlers_from_flows`, with the registry that it leaves. -/
def registerHandlersFromFlows (domain : Domain E H) (service : MessagingService E)
    (flows : FlowMap E H) (registry : HandlerRegistry H) :
    Except String (HandlerRegistry H) := do
  if !service.isConsumerEnabled then
    return registry
  registerSchemaRegistrySchemas domain service flows
  let st ← (iterFlowSteps flows).foldlM (registerStep domain service) { registry := registry }
  return st.registry

end

/-- The handler classes that `process_event` executes on an event: that of the handler
which the registry has for its type. -/
def executedClasses (config : EventProcessorConfig) (registry : HandlerRegistry H)
    (event : BaseEvent) : List H :=
  let handler := registry.getHandler event.eventType
  let (_, p) := processEvent config (handler.map BaseEventHandler.handler) event
  if .executed ∈ p.effects then (handler.map BaseEventHandler.cls).toList else []

/-- One of the steps lists the class for the event type. -/
def ListedBy (domain : Domain E H) (steps : List (EventStep E H)) (eventType : String)
    (cls : H) : Prop :=
  ∃ step ∈ steps, eventTypeValue domain step.event = .ok eventType ∧ cls ∈ step.handlers

/-- The flows list the class for the event type. -/
def Listed (domain : Domain E H) (flows : FlowMap E H) : String → H → Prop :=
  ListedBy domain (iterFlowSteps flows)

theorem processEventWithHandler_executed (config : EventProcessorConfig) (handler : EventHandler)
    (p : Processing) :
    .executed ∈ (processEventWithHandler config handler p).2.effects := by
  unfold processEventWithHandler
  cases handler.handleEvent p.executions with
  | returns result =>
    cases hsuccess : result.success <;> simp [hsuccess, Processing.countFailure]
  | raises error => simp [Processing.countFailure]

theorem processEvent_executed (config : EventProcessorConfig) (handler : EventHandler)
    (event : BaseEvent) : .executed ∈ (processEvent config (some handler) event).2.effects := by
  have hcall := processEventWithHandler_executed config handler
  have hpolicy := executeAsync_called (J := fun p : Processing => .executed ∈ p.effects) hcall 2
    { event := event }
  have hcalled : .executed ∈ (if config.retryEnabled then
      executeAsync (processEventWithHandler config handler) maxAttempts { event := event }
    else processEventWithHandler config handler { event := event }).2.effects := by
    split
    · exact hpolicy
    · exact hcall _
  unfold processEvent
  simp only
  split
  · rename_i houtcome
    rwa [houtcome] at hcalled
  · rename_i houtcome
    rwa [houtcome] at hcalled

theorem mem_executedClasses (config : EventProcessorConfig) (registry : HandlerRegistry H)
    (event : BaseEvent) (cls : H) : cls ∈ executedClasses config registry event ↔
      ∃ handler, registry.getHandler event.eventType = some handler ∧ handler.cls = cls := by
  unfold executedClasses
  cases hlookup : registry.getHandler event.eventType with
  | none => simp [processEvent]
  | some handler => simp [processEvent_executed, eq_comm]

section

variable [DecidableEq E] [DecidableEq H] {domain : Domain E H} {service : MessagingService E}
  {st st' : Registration E H}

/-- The pairs that are registered, each of whose event types has a handler of a class
registered for it. -/
structure Registered (pairs : String → H → Prop) (st : Registration E H) : Prop where
  handlers : ∀ eventType cls, (eventType, cls) ∈ st.registeredHandlers ↔ pairs eventType cls
  held : ∀ eventType cls, pairs eventType cls →
    ∃ handler, st.registry.getHandler eventType = some handler ∧ pairs eventType handler.cls

omit [DecidableEq H] in
theorem registerEvent_keeps {eventCls : E} (h : registerEvent service st eventCls = .ok st') :
    st'.registry = st.registry ∧ st'.registeredHandlers = st.registeredHandlers := by
  unfold registerEvent at h
  split at h
  · cases h
    exact ⟨rfl, rfl⟩
  · obtain ⟨-, -, h⟩ := bind_ok h
    cases h
    exact ⟨rfl, rfl⟩

omit [DecidableEq H] in
theorem registerEvents_keep {events : List E}
    (h : events.foldlM (registerEvent service) st = .ok st') :
    st'.registry = st.registry ∧ st'.registeredHandlers = st.registeredHandlers := by
  refine foldlM_ok (P := fun _ s =>
    s.registry = st.registry ∧ s.registeredHandlers = st.registeredHandlers)
    ?_ [] ⟨rfl, rfl⟩ h
  intro _ eventCls s s' hs hevent
  obtain ⟨hregistry, hhandlers⟩ := registerEvent_keeps hevent
  exact ⟨hregistry.trans hs.1, hhandlers.trans hs.2⟩

variable {pairs : String → H → Prop} {eventType : String}

omit [DecidableEq E] in
theorem registerHandler_registered {cls : H} (hreg : Registered pairs st)
    (h : registerHandler domain eventType st cls = .ok st') :
    Registered (fun t k => pairs t k ∨ t = eventType ∧ k = cls) st' := by
  unfold registerHandler at h
  split at h
  · rename_i hmem
    cases h
    have hpair := (hreg.handlers eventType cls).mp hmem
    have hsame : (fun t k => pairs t k ∨ t = eventType ∧ k = cls) = pairs := by
      funext t k
      refine propext ⟨?_, Or.inl⟩
      rintro (hold | ⟨rfl, rfl⟩)
      · exact hold
      · exact hpair
    rw [hsame]
    exact hreg
  · obtain ⟨handler, -, h⟩ := bind_ok h
    cases h
    constructor
    · intro t k
      simp [hreg.handlers, or_comm]
    · intro t k hpair
      by_cases ht : t = eventType
      · subst ht
        exact ⟨⟨cls, handler⟩, Function.update_self .., Or.inr ⟨rfl, rfl⟩⟩
      · obtain ⟨old, hold, hcls⟩ := hreg.held t k (hpair.resolve_right fun h => ht h.1)
        refine ⟨old, ?_, Or.inl hcls⟩
        rw [← hold]
        exact Function.update_of_ne ht ..

omit [DecidableEq E] in
theorem registerHandlers_registered {handlers : List H} (hreg : Registered pairs st)
    (h : handlers.foldlM (registerHandler domain eventType) st = .ok st') :
    Registered (fun t k => pairs t k ∨ t = eventType ∧ k ∈ handlers) st' := by
  have hdone := foldlM_ok (P := fun done s =>
    Registered (fun t k => pairs t k ∨ t = eventType ∧ k ∈ done) s)
    ?_ [] (by simpa using hreg) h
  · simpa using hdone
  · intro done cls s s' hs hcls
    have hpairs : (fun t k => pairs t k ∨ t = eventType ∧ k ∈ done ++ [cls]) =
        fun t k => (pairs t k ∨ t = eventType ∧ k ∈ done) ∨ t = eventType ∧ k = cls := by
      funext t k
      simp [or_assoc, and_or_left]
    rw [hpairs]
    exact registerHandler_registered hs hcls

theorem registerStep_registered {done : List (EventStep E H)} {step : EventStep E H}
    (hreg : Registered (ListedBy domain done) st)
    (h : registerStep domain service st step = .ok st') :
    Registered (ListedBy domain (done ++ [step])) st' := by
  obtain ⟨eventType, htype, h⟩ := bind_ok h
  obtain ⟨st₁, hevent, h⟩ := bind_ok h
  obtain ⟨st₂, hemits, h⟩ := bind_ok h
  obtain ⟨hregistry₁, hhandlers₁⟩ := registerEvent_keeps hevent
  obtain ⟨hregistry₂, hhandlers₂⟩ := registerEvents_keep hemits
  have hreg₂ : Registered (ListedBy domain done) st₂ := by
    constructor
    · rw [hhandlers₂, hhandlers₁]
      exact hreg.handlers
    · rw [hregistry₂, hregistry₁]
      exact hreg.held
  have hpairs : ListedBy domain (done ++ [step]) =
      fun t k => ListedBy domain done t k ∨ t = eventType ∧ k ∈ step.handlers := by
    funext t k
    simp [ListedBy, or_and_right, exists_or, htype, eq_comm]
  rw [hpairs]
  exact registerHandlers_registered hreg₂ h

/-- After a registration every event type with a listed class has a handler of one. -/
theorem register_held {flows : FlowMap E H} {registry registry' : HandlerRegistry H}
    (h : registerHandlersFromFlows domain service flows registry = .ok registry')
    (henabled : service.isConsumerEnabled = true) {cls : H}
    (hlisted : Listed domain flows eventType cls) :
    ∃ handler, registry'.getHandler eventType = some handler ∧
      Listed domain flows eventType handler.cls := by
  simp only [registerHandlersFromFlows, henabled, Bool.not_true, Bool.false_eq_true,
    if_false] at h
  obtain ⟨-, -, h⟩ := bind_ok h
  obtain ⟨st, hst, h⟩ := bind_ok h
  cases h
  have hstart : Registered (ListedBy domain ([] : List (EventStep E H)))
      { registry := registry : Registration E H } := by
    constructor <;> simp [ListedBy]
  have hreg := foldlM_ok (P := fun done s => Registered (ListedBy domain done) s)
    (fun done step s s' => registerStep_registered) [] hstart hst
  exact hreg.held eventType cls hlisted

/-- Every class that is listed for an event type is executed on every event of that type
exactly when the consumer is enabled and all of them are one class, or the consumer is
disabled and the registry had a handler of each of them before. -/
theorem listed_executed_iff {flows : FlowMap E H} {registry registry' : HandlerRegistry H}
    (h : registerHandlersFromFlows domain service flows registry = .ok registry')
    (config : EventProcessorConfig) (eventType : String) :
    (∀ event : BaseEvent, event.eventType = eventType →
      ∀ cls, Listed domain flows eventType cls → cls ∈ executedClasses config registry' event) ↔
    if service.isConsumerEnabled then
      ∀ a b, Listed domain flows eventType a → Listed domain flows eventType b → a = b
    else
      ∀ a, Listed domain flows eventType a →
        (registry.getHandler eventType).map BaseEventHandler.cls = some a := by
  have hexecuted : (∀ event : BaseEvent, event.eventType = eventType →
      ∀ cls, Listed domain flows eventType cls → cls ∈ executedClasses config registry' event) ↔
      ∀ a, Listed domain flows eventType a →
        (registry'.getHandler eventType).map BaseEventHandler.cls = some a := by
    simp only [mem_executedClasses, Option.map_eq_some_iff]
    constructor
    · intro hall cls hlisted
      exact hall { eventType := eventType, eventId := "" } rfl cls hlisted
    · rintro hall event rfl cls hlisted
      exact hall cls hlisted
  rw [hexecuted]
  cases henabled : service.isConsumerEnabled with
  | false =>
    have hsame : registry' = registry := by
      simp only [registerHandlersFromFlows, henabled, Bool.not_false, if_true] at h
      cases h
      rfl
    rw [hsame, if_neg Bool.false_ne_true]
  | true =>
    rw [if_pos rfl]
    constructor
    · intro hall a b ha hb
      exact Option.some.inj ((hall a ha).symm.trans (hall b hb))
    · intro hone a ha
      obtain ⟨handler, hhandler, hlisted⟩ := register_held h henabled ha
      rw [hhandler, Option.map_some, hone _ _ hlisted ha]

end

/-- The events and the handlers of a registration flow. -/
inductive SignUpEvent | userRegistered | tenantCreated deriving DecidableEq
inductive SignUpHandler | setup | welcome deriving DecidableEq

def succeeding : EventHandler where
  handlerName := "handler"
  handleEvent _ := .returns { eventId := "1" }

def signUp : Domain SignUpEvent SignUpHandler where
  name _ := "UserRegisteredEvent"
  fieldDefault
    | .userRegistered => some "user.registered"
    | .tenantCreated => some "tenant.created"
  topicForEvent _ := .ok (some "iam.user.registered")
  instantiate _ := .ok succeeding

def consuming : MessagingService SignUpEvent where
  isConsumerEnabled := true
  registerSchema _ _ := .ok ()
  registerEventSerializer _ := .ok ()

/-- One event class with two handlers, in two flows. -/
def signUpFlows : FlowMap SignUpEvent SignUpHandler :=
  [("setup", [{ event := .userRegistered, handlers := [.setup], emits := [.tenantCreated] }]),
    ("welcome", [{ event := .userRegistered, handlers := [.welcome] }])]

/-- The welcome handler takes the place of the setup handler. -/
theorem second_handler_replaces_first :
    ∃ registry, registerHandlersFromFlows signUp consuming signUpFlows {} = .ok registry ∧
      Listed signUp signUpFlows "user.registered" .setup ∧
      .setup ∉ executedClasses {} registry { eventType := "user.registered", eventId := "7" } := by
  refine ⟨_, rfl, ?_, ?_⟩
  · exact ⟨{ event := .userRegistered, handlers := [.setup], emits := [.tenantCreated] },
      by simp [iterFlowSteps, signUpFlows], rfl, by simp⟩
  · rw [mem_executedClasses]
    rintro ⟨handler, hhandler, hcls⟩
    cases hhandler
    cases hcls

/-- With the first of the flows alone, its handler is executed. -/
theorem listed_executed_setup :
    ∃ registry, registerHandlersFromFlows signUp consuming (signUpFlows.take 1) {} =
        .ok registry ∧
      ∀ event : BaseEvent, event.eventType = "user.registered" →
        .setup ∈ executedClasses {} registry event := by
  refine ⟨_, rfl, ?_⟩
  have hlisted : Listed signUp (signUpFlows.take 1) "user.registered" .setup :=
    ⟨{ event := .userRegistered, handlers := [.setup], emits := [.tenantCreated] },
      by simp [iterFlowSteps, signUpFlows], rfl, by simp⟩
  intro event hevent
  have hregister : registerHandlersFromFlows signUp consuming (signUpFlows.take 1) {} = .ok _ :=
    rfl
  refine (listed_executed_iff hregister {} "user.registered").mpr ?_ event hevent .setup hlisted
  rw [if_pos (show consuming.isConsumerEnabled = true from rfl)]
  intro a b ha hb
  have hone : ∀ c, Listed signUp (signUpFlows.take 1) "user.registered" c → c = .setup := by
    rintro c ⟨step, hstep, -, hc⟩
    simp [iterFlowSteps, signUpFlows] at hstep
    subst hstep
    simpa using hc
  rw [hone a ha, hone b hb]

end Taas.FlowRegistration
